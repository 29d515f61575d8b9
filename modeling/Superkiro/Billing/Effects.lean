import Superkiro.Billing.Change

namespace Billing

open F64 Except Host

-- The id of the one entry that an operation posts, where it posts one.
def Op.entryId (t : Tables F) : Op F → Option String
  | .freezeCard cardId _ _ now           => eventId "freeze_card" cardId now t.ledger.length
  | .unfreezeCard cardId _ _ now         => eventId "unfreeze_card" cardId now t.ledger.length
  | .banCard cardId _ _ now              => eventId "ban_card" cardId now t.ledger.length
  | .unbanCard cardId _ _ now            => eventId "unban_card" cardId now t.ledger.length
  | .voidCard cardId _ _ now _           => eventId "void" cardId now t.ledger.length
  | .changeCardGroup cardId _ _ _ now    => eventId "change_group" cardId now t.ledger.length
  | .adminUnbindDevice cardId _ _ _ now  => eventId "unbind_device" cardId now t.ledger.length
  | .resetRebinds cardId _ _ now         => eventId "reset_rebinds" cardId now t.ledger.length
  | .rekeyCard cardId _ _ _ now          => eventId "rekey_card" cardId now t.ledger.length
  | .setCardArchived cardId archived _ _ now =>
    eventId (Tables.archiveAction archived) cardId now t.ledger.length
  | .adjustCardBalance a                 =>
    a.idempotencyKey.getD (eventId "adj" a.cardId a.nowSecs t.ledger.length)
  | .upgradeCard u                       =>
    u.idempotencyKey.getD (eventId upgradeEvent u.cardId u.nowSecs t.ledger.length)
  | _                                    => none

-- The ids that what an operation posts can be recorded under.
def Op.Records (t : Tables F) (op : Op F) (id : String) : Prop :=
  match op with
  | .extendValidity cardIds _ _ _ now =>
    ∃ cardId ∈ cardIds, ∃ n ≥ t.ledger.length, id = eventId "extend_validity" cardId now n
  | .redeemTopup ..                   => ∃ k c, t.topupCodes.lookup k = some c ∧ id = "topup-" ++ c.id
  | .renewWithCard ..                 => ∃ k c, t.cards.lookup k = some c ∧ id = "renew-" ++ c.id
  | _                                 => op.entryId t = some id

-- Only a top-up code can take from what a card was given, if its amount is negative.
def Op.redeems : Op F → Bool
  | .redeemTopup .. => true
  | _               => false

-- The turns an operation makes a card take.
def Op.Turns (op : Op F) (key : String) (turns : List Turn) : Prop :=
  match op with
  | .freezeCard cardId ..           => key = cardId ∧ turns = [.freeze]
  | .unfreezeCard cardId ..         => key = cardId ∧ turns = [.unfreeze]
  | .banCard cardId ..              => key = cardId ∧ turns = [.ban]
  | .unbanCard cardId ..            => key = cardId ∧ turns = [.unban]
  | .voidCard cardId ..             => key = cardId ∧ turns = [.void]
  | .changeCardGroup cardId ..      => key = cardId ∧ turns = [.revoke]
  | .extendValidity cardIds ..      => key ∈ cardIds ∧ (turns = [] ∨ turns = [.revive])
  | .adjustCardBalance a            => key = a.cardId ∧ turns = []
  | .redeemTopup cardId ..          => key = cardId ∧ turns = [.wake]
  | .renewWithCard cardId ..        =>
    (key = cardId ∧ turns = [.wake]) ∨ (key ≠ cardId ∧ turns = [.consume])
  | .upgradeCard u                  => key = u.cardId ∧ turns.Sublist [.revive, .revoke]
  | .activateCard cardId now _      => key = cardId ∧ (turns = [] ∨ turns = [.activate now])
  | .activateCardWithDevice cardId now .. =>
    key = cardId ∧ (turns = [] ∨ turns = [.activate now])
  | .bindDevice cardId ..           => key = cardId ∧ turns = []
  | .unbindDevice cardId ..         => key = cardId ∧ turns = [.revoke]
  | .adminUnbindDevice cardId ..    => key = cardId ∧ turns = [.revoke]
  | .resetRebinds cardId ..         => key = cardId ∧ turns = []
  | .rekeyCard cardId ..            => key = cardId ∧ turns = [.revoke]
  | .setCardCodeHash cardId ..      => key = cardId ∧ turns = [.revoke]
  | .revokeTokens cardId            => key = cardId ∧ turns = [.revoke]
  | .rotateRefresh cardId ..        => key = cardId ∧ turns = []
  | .setCardArchived cardId ..      => key = cardId ∧ turns = []
  | _                               => False

-- What becomes of the refresh tokens of a card that an operation replaces.
def Op.Refreshes (op : Op F) (old new : RefreshFamily) : Prop :=
  match op with
  | .activateCardWithDevice ..              => new = old.renewed
  | .rotateRefresh _ presented _ _ now _    => presented = old.version ∧ new = old.rotated now
  | _                                       => new = old

-- The changes each operation makes.
inductive Op.Makes (t : Tables F) : Op F → Change F → Prop
  | reserve {id : String} {card : Card} {r : CreditReservation F} :
    r.cardId = cardId → r.invocationId = id → r.createdAtSecs = now →
    Makes t (.reserve cardId id p now ttl) (.hold card r)
  | extend {id : String} :
    Makes t (.extendReservation id amount now) (.extend id card reserved r)
  | pend {id : String} :
    Makes t (.settle id tokens exposed provider target now) (.pend id p)
  | settle {id : String} :
    Makes t (.settle id tokens exposed provider target now) (.debit id r card entry)
  | retry {id : String} :
    Makes t (.retryPendingSettlement id) (.debit id r card entry)
  | release {id : String} :
    Makes t (.release id) (.release id r)
  | clean :
    Makes t (.runJanitor now) (.clean active now)
  | charge {r r' : ResponseTemplateReceipt} :
    r'.invocationId = r.invocationId → r'.createdAtSecs = now →
    Makes t (.chargeResponseTemplate revision ruleId modelId r now) (.charge card entry r')
  | templates :
    Makes t (.publishResponseTemplates u now) (.templates config)
  | post {op : Op F} {entry : LedgerEntry F} :
    (op.redeems = false → 0 ≤ entry.given) → op.Records t k → op.Turns key turns → entry.invocationId = some k →
    Makes t op (.post turns key card entry)
  | replace {op : Op F} {old card : Card} :
    op.Turns key turns → t.cards.lookup key = some old → op.Refreshes old.family card.family →
    Makes t op (.replace turns key card)
  | consume :
    Makes t (.consumeRefreshToken jti expires now) (.consume tokens)
  | rotate :
    Makes t (.rotateRefresh cardId presented jti expires now grace) (.consume tokens)
  | use :
    Makes t (.redeemTopup cardId code now operator) (.use codes)
  | archive :
    Makes t (.archiveLedger before) (.archive before receipt)
  | publish :
    Makes t (.publishCommercialConfig u now) (.publish u now)
  | restart :
    Makes t .restart (.recover keys)
  | reload :
    Makes t .reload (.recover keys)

section

variable [F64 F] [Host F] {t : Tables F} {txn : Result (Txn F α)} {M : Change F → Prop}

-- A transaction that publishes what it saves, and what it saves comes to a few changes.
structure Commits (t : Tables F) (M : Change F → Prop) (txn : Result (Txn F α)) : Prop where
  publishes : Engine.Publishes t txn
  steps     : ∀ {c pub a n}, txn = .ok (.write c pub a) → normalize t c = .ok n →
    ∃ cs, Change.Steps t cs n ∧ ∀ x ∈ cs, M x

-- Most transactions issue no receipts.
theorem Commits.of_write
    (h : ∀ {c pub a}, txn = .ok (.write c pub a) → pub t = c ∧
      c.responseTemplateReceipts = t.responseTemplateReceipts ∧
      ∃ cs, Change.Steps t cs c ∧ ∀ x ∈ cs, M x) : Commits t M txn where
  publishes he := (h he).left
  steps he hn := by
    have ⟨_, hr, hs⟩ := h he
    rw [normalize_of_receipts hr] at hn
    cases hn
    exact hs

theorem Commits.of_error : Commits t M (.error err : Result (Txn F α)) :=
  .of_write nofun

theorem Commits.of_step (h : Change.Step t c t') (hm : M c) :
    ∃ cs, Change.Steps t cs t' ∧ ∀ x ∈ cs, M x :=
  ⟨[c], .single h, by simpa using hm⟩

end

-- A card with the same balance and refresh tokens.
structure Card.Same (turns : List Turn) (old card : Card) : Prop
    extends Card.Kept turns old card where
  family : card.family = old.family

-- A card event changes a card, but not its balance.
theorem Postable.of_event {t : Tables F} {old card : Card} {entry : LedgerEntry F}
    (hf : t.cards.lookup key = some old) (h : Card.Same turns old card) (ho : entry.cardId = key)
    (hk : entry.kind = .adjustment) (hc : entry.creditsCharged = 0) :
    Postable t turns key card entry where
  found    := ⟨old, hf, h.toTurned.id, h.reserved,
    by simp [h.total, LedgerEntry.given, hk, hc, I64.le_def],
    by simp [h.used, LedgerEntry.taken, hk, hc, I64.lt_def], h.family, h.toTurned⟩
  owner    := ho
  notUsage := by simp [hk]
  topup    := by simp [hk]
  covered  := by simp [LedgerEntry.taken, hk, hc, I64.lt_def]

theorem given_adjustment {entry : LedgerEntry F} (hk : entry.kind = .adjustment) :
    0 ≤ entry.given := by
  unfold LedgerEntry.given
  split
  case isTrue h =>
    rw [hk] at h
    cases h
    case inl h => cases h
    case inr h => exact h.right
  case isFalse => exact I64.le_def.mpr (Int.le_refl 0)

theorem getCard_eq_ok {t : Tables F} : t.getCard k = .ok c ↔ t.cards.lookup k = some c :=
  ofOption_eq_ok

theorem Card.Same.extendedActivation {card : Card} :
    Card.Same [] card (card.extendedActivation d) :=
  ⟨⟨⟨rfl, rfl⟩, rfl, rfl, rfl⟩, rfl⟩

theorem Card.Same.extendedTo {card : Card} : Card.Same [.revive] card (card.extendedTo u) := by
  refine ⟨⟨⟨rfl, ?_⟩, rfl, rfl, rfl⟩, rfl⟩
  have hf : card.frozenFrom.map CardStatus.woken =
      if card.frozenFrom = some .expired then some .active else card.frozenFrom := by
    cases h : card.frozenFrom <;> simp [CardStatus.woken]
    split <;> simp_all
  simp [Card.lifecycle, Lifecycle.turn, hf, Card.extendedTo, CardStatus.woken]

theorem frozenOrigin_eq {card : Card} : Tables.frozenOrigin card = card.lifecycle.origin := by
  simp only [Tables.frozenOrigin, Lifecycle.origin, Lifecycle.unsuspended, Card.lifecycle]
  by_cases h : card.activatedAt.isSome <;> simp [←Option.not_isSome, h]

theorem extendOne_cases {s s' : Tables.Extended F} {id : String}
    (h : Tables.extendOne x operator reason now s id = .ok s') :
    ∃ card entry turns, s' = ⟨s.tables.withCard id card [entry], s.entries ++ [entry],
      s.changed ++ [card]⟩ ∧ Postable s.tables turns id card entry ∧
      (turns = [] ∨ turns = [.revive]) ∧ entry.kind = .adjustment ∧
      entry.invocationId = some (eventId "extend_validity" id now s.tables.ledger.length) ∧
      ∀ parse, isCompensation parse entry = false := by
  simp only [Tables.extendOne, bind_eq_ok', getCard_eq_ok, pure_eq_ok] at h
  have ⟨old, ho, ⟨card, detail⟩, hx, h⟩ := h
  unfold extendCard at hx
  split at hx
  case h_1 =>
    cases hx
    exact ⟨_, _, [], h.symm, .of_event ho .extendedActivation rfl rfl rfl, .inl rfl, rfl, rfl,
      fun _ => rfl⟩
  case h_2 =>
    cases hx
    exact ⟨_, _, [.revive], h.symm, .of_event ho .extendedTo rfl rfl rfl, .inr rfl, rfl, rfl,
      fun _ => rfl⟩
  case h_3 => cases hx

theorem Card.adjusted_eq_ok {card card' : Card} {entry : LedgerEntry F}
    (h : card.adjusted delta = .ok card') (hk : entry.kind = .adjustment)
    (hd : entry.creditsCharged = delta) (h0 : delta ≠ 0) : card'.id = card.id ∧
      card'.creditReserved = card.creditReserved ∧
      card'.creditTotal = card.creditTotal.satAdd entry.given ∧
      card'.creditUsed = card.creditUsed.satAdd entry.taken ∧
      card'.family = card.family ∧ Card.Turned [] card card' := by
  simp only [Card.adjusted] at h
  simp only [LedgerEntry.given, LedgerEntry.taken, hk, hd]
  split at h
  case isTrue hp =>
    cases h
    have hp : 0 < delta.val := hp
    have h₁ : 0 ≤ delta := I64.le_def.mpr (by simp; omega)
    have h₂ : ¬ delta < 0 := mt I64.lt_def.mp (by simp; omega)
    exact ⟨rfl, rfl, by simp [h₁], by simp [h₂], rfl, rfl, rfl⟩
  case isFalse hp =>
    simp only [bind_eq_ok', exists_unit, pure_eq_ok] at h
    cases h.right
    have hn : delta.val ≠ 0 := fun he => h0 (I64.eq_iff.mpr he)
    have hp : ¬ 0 < delta.val := hp
    have h₁ : ¬ 0 ≤ delta := mt I64.le_def.mp (by simp; omega)
    have h₂ : delta < 0 := I64.lt_def.mpr (by simp; omega)
    exact ⟨rfl, rfl, by simp [h₁], by simp [h₂], rfl, rfl, rfl⟩

theorem Card.adjusted_covered {card card' : Card} {entry : LedgerEntry F}
    (h : card.adjusted delta = .ok card') (hk : entry.kind = .adjustment)
    (hd : entry.creditsCharged = delta) (ht : 0 < entry.taken) :
    entry.taken ≤ card.availableCredits := by
  simp only [LedgerEntry.taken, hk, hd, true_and] at ht ⊢
  split at ht
  case isFalse => exact absurd (I64.lt_def.mp ht) (by simp)
  case isTrue hn =>
    have hp : ¬0 < delta := mt I64.lt_def.mp (by have := I64.lt_def.mp hn; simp at this ⊢; omega)
    rw [Card.adjusted, if_neg hp] at h
    simp only [bind_eq_ok', exists_unit, ensure_eq_ok, decide_eq_true_eq] at h
    rw [if_pos hn]
    exact h.left

theorem cardExtension_eq_ok {u : CardUpgrade} (h : cardExtension u card = .ok (card', d)) :
    ∃ turns, turns.Sublist [.revive] ∧ Card.Same turns card card' := by
  unfold cardExtension at h
  split at h
  case isTrue =>
    cases h
    exact ⟨[], by simp, ⟨⟨rfl, rfl⟩, rfl, rfl, rfl⟩, rfl⟩
  case isFalse =>
    split at h
    all_goals
      simp only [bind_eq_ok', exists_unit, pure_eq_ok] at h
    case isTrue =>
      cases h.right
      exact ⟨[], by simp, .extendedActivation⟩
    case isFalse =>
      have ⟨_, _, h⟩ := h
      cases h
      exact ⟨[.revive], by simp, .extendedTo⟩

theorem cardExtension_keys {u : CardUpgrade} (h : cardExtension u card = .ok (card', d)) :
    d = [] ∨ ∃ duration previous, d = [("activationDurationSecs", duration),
      ("previousActivationDurationSecs", previous)] := by
  unfold cardExtension at h
  split at h
  case isTrue =>
    cases h
    exact .inl rfl
  case isFalse =>
    split at h
    all_goals
      simp only [bind_eq_ok', exists_unit, pure_eq_ok] at h
    case isTrue =>
      cases h.right
      exact .inr ⟨_, _, rfl⟩
    case isFalse =>
      have ⟨_, _, h⟩ := h
      cases h
      exact .inl rfl

-- An upgrade makes up for no request.
theorem upgradeEntry_isCompensation {u : CardUpgrade} {plan : Plan F}
    (h : cardExtension u card = .ok (card', d)) (parse : String → Option Json) :
    isCompensation parse (upgradeEntry (F := F) n u operator reason
      (upgradeDetail u plan groupId before after d snapshot)) = false := by
  have hd (key : String) (hk : key = "invocationIds" ∨ key = "invocationId") :
      (upgradeDetail u plan groupId before after d snapshot).get? key = none := by
    cases cardExtension_keys h
    case inl h =>
      subst h
      cases hk <;> (subst key; rfl)
    case inr h =>
      have ⟨_, _, h⟩ := h
      subst h
      cases hk <;> (subst key; rfl)
  have hn {e : LedgerEntry F} (he : e.detail =
      some (upgradeDetail u plan groupId before after d snapshot)) :
      isCompensation parse e = false := by
    simp [isCompensation, LedgerEntry.eventDetail, he, hd]
  refine hn ?_
  unfold upgradeEntry
  split <;> rfl

-- An upgrade ends the sessions of a card that it moves to another group.
theorem Card.Turned.upgraded {card : Card} (u : CardUpgrade) (groupId : String) (p : IssuedPlan)
    (h : Card.Turned turns old card) (hs : turns.Sublist [.revive]) :
    ∃ turns', turns'.Sublist [.revive, .revoke] ∧
      Card.Turned turns' old (card.upgraded u groupId p) := by
  by_cases hg : card.groupId = groupId
  case pos =>
    refine ⟨turns, hs.trans (by simp), h.terms, h.lifecycle.trans ?_⟩
    simp [Card.lifecycle, Card.upgraded, hg]
  case neg =>
    refine ⟨turns ++ [.revoke], by simpa using hs.append_right [.revoke], h.terms, ?_⟩
    have hl := h.lifecycle
    simp only [Lifecycle.turns] at hl ⊢
    rw [List.foldlM_append, hl]
    simp [Card.lifecycle, Card.upgraded, hg, Lifecycle.turn, Lifecycle.revoked]

theorem upgradeEntry_spec (ledgerLen : Nat) (u : CardUpgrade) (operator reason : String)
    (d : Json) :
    let e : LedgerEntry F := upgradeEntry ledgerLen u operator reason d
    e.cardId = u.cardId ∧ e.kind = .adjustment ∧ e.creditsCharged = u.creditsDelta ∧
      e.invocationId =
        some (u.idempotencyKey.getD (eventId upgradeEvent u.cardId u.nowSecs ledgerLen)) := by
  simp only [upgradeEntry]
  split
  case h_1 hk => simp [hk, cardEventEntry]
  case h_2 hk => simp [hk, cardEventEntry]

theorem noPending_of_checkQuota {t : Tables F} (h : t.checkQuota card amount now = .ok u) :
    ∀ {k p}, t.pendingSettlements.lookup k = some p → p.entry.cardId ≠ card.id := by
  intro k p hp
  simp only [Tables.checkQuota, bind_eq_ok', exists_unit, ensure_eq_ok, Bool.not_eq_true',
    List.any_eq_false, decide_eq_true_eq] at h
  exact h.left p (AList.mem_values.mpr ⟨k, hp⟩)

theorem publishSettlement_debit (t : Tables F) (id : String) (r : CreditReservation F)
    (card : Card) (entry : LedgerEntry F) :
    (t.debit id r card entry).publishSettlement t = t.debit id r card entry := by
  simp only [Tables.publishSettlement, Tables.debit]

theorem publishSettlement_withPending (t : Tables F) (id : String) (p : PendingSettlement F) :
    (t.withPending id p).publishSettlement t = t.withPending id p := rfl

-- A bill that is debited at once leaves no trace of having been pending.
theorem debit_withPending {t : Tables F} {id : String} {p : PendingSettlement F} :
    (t.withPending id p).debit id r card entry = t.debit id r card entry := by
  simp only [Tables.withPending, Tables.debit, AList.erase_insert]
  rfl

theorem applyPendingSettlement_cases [F64 F] {t : Tables F} {id : String} {p : PendingSettlement F}
    {x : Tables F × LedgerEntry F} (hd : Due t id p)
    (h : t.applyPendingSettlement id p = .ok x) :
    ∃ r card, x = (t.debit id r card (t.finalEntry id p), t.finalEntry id p) ∧
      Debitable t id r card (t.finalEntry id p) := by
  simp only [Tables.applyPendingSettlement, bind_eq_ok', exists_unit, pure_eq_ok, ensure_eq_ok,
    ofOption_eq_ok, Bool.and_eq_true, decide_eq_true_eq] at h
  have ⟨r, hr, hh, ⟨⟨⟨⟨hi, ho⟩, hk⟩, hc⟩, hcost⟩, card, hf, h⟩ := h
  exact ⟨r, card, h.symm, ⟨p, hd, rfl⟩, hr, hh, hi, ho, hk, hc, hcost, ho ▸ hf⟩

section

variable {t : Tables F} {op : Op F} {id : String}

-- A transaction that changes a card and posts one entry, which makes up for no request.
def Posts (t : Tables F) (op : Op F) (txn : Result (Txn F Card)) : Prop :=
  ∀ ⦃c pub a⦄, txn = .ok (.write c pub a) → ∃ key card entry k,
    Txn.write c pub a = t.writeCard key card entry ∧ op.Records t k ∧
    entry.invocationId = some k ∧ (∀ parse, isCompensation parse entry = false) ∧
    entry.kind = .adjustment ∧ ∃ turns, op.Turns key turns ∧ Postable t turns key card entry

theorem Commits.of_post [F64 F] [Host F] {txn : Result (Txn F Card)} (h : Posts t op txn) :
    Commits t (op.Makes t) txn := by
  refine .of_write fun he => ?_
  have ⟨key, card, entry, k, hw, hr, hi, _, hk, turns, ht, hp⟩ := h he
  cases hw
  exact ⟨rfl, rfl, of_step (.post hp) (.post (fun _ => given_adjustment hk) hr ht hi)⟩

theorem freezeCard_posts :
    Posts t (.freezeCard cardId operator reason now)
      (t.freezeCard cardId operator reason now) := by
  intro c pub a h
  simp only [Tables.freezeCard, bind_eq_ok', exists_unit, pure_eq_ok, getCard_eq_ok,
    ensure_eq_ok] at h
  have ⟨_, _, card, hc, hs, he⟩ := h
  cases he
  refine ⟨_, _, _, _, rfl, rfl, rfl, fun _ => rfl, rfl, _, ⟨rfl, rfl⟩, .of_event hc ?_ rfl rfl rfl⟩
  refine ⟨⟨⟨rfl, ?_⟩, rfl, rfl, rfl⟩, rfl⟩
  simp only [Lifecycle.turns_single, Lifecycle.turn]
  exact if_pos hs

theorem unfreezeCard_posts :
    Posts t (.unfreezeCard cardId operator reason now)
      (t.unfreezeCard cardId operator reason now) := by
  intro c pub a h
  simp only [Tables.unfreezeCard, bind_eq_ok', exists_unit, pure_eq_ok, getCard_eq_ok,
    ensure_eq_ok, decide_eq_true_eq, frozenOrigin_eq] at h
  have ⟨_, _, card, hc, hs, ho, he⟩ := h
  cases he
  refine ⟨_, _, _, _, rfl, rfl, rfl, fun _ => rfl, rfl, _, ⟨rfl, rfl⟩, .of_event hc ?_ rfl rfl rfl⟩
  refine ⟨⟨⟨rfl, ?_⟩, rfl, rfl, rfl⟩, rfl⟩
  simp only [Lifecycle.turns_single, Lifecycle.turn]
  exact if_pos ⟨hs, ho⟩

theorem banCard_posts :
    Posts t (.banCard cardId operator reason now)
      (t.banCard cardId operator reason now) := by
  intro c pub a h
  simp only [Tables.banCard, bind_eq_ok', exists_unit, pure_eq_ok, getCard_eq_ok, ensure_eq_ok,
    decide_eq_true_eq] at h
  have ⟨_, _, card, hc, hs, he⟩ := h
  cases he
  refine ⟨_, _, _, _, rfl, rfl, rfl, fun _ => rfl, rfl, _, ⟨rfl, rfl⟩, .of_event hc ?_ rfl rfl rfl⟩
  refine ⟨⟨⟨rfl, ?_⟩, rfl, rfl, rfl⟩, rfl⟩
  simp only [Lifecycle.turns_single, Lifecycle.turn]
  exact if_neg hs

theorem voidCard_posts :
    Posts t (.voidCard cardId operator reason now unactivatedOnly)
      (t.voidCardInner cardId operator reason now unactivatedOnly) := by
  intro c pub a h
  simp only [Tables.voidCardInner, bind_eq_ok', exists_unit, getCard_eq_ok] at h
  have ⟨_, _, card, hc, he⟩ := h
  split at he
  case isTrue => cases he
  case isFalse hs =>
    simp only [bind_eq_ok', exists_unit, pure_eq_ok] at he
    have ⟨_, _, he⟩ := he
    cases he
    refine ⟨_, _, _, _, rfl, rfl, rfl, fun _ => rfl, rfl, _, ⟨rfl, rfl⟩, .of_event hc ?_ rfl rfl rfl⟩
    refine ⟨⟨⟨rfl, ?_⟩, rfl, rfl, rfl⟩, rfl⟩
    simp only [Lifecycle.turns_single, Lifecycle.turn]
    exact if_neg hs

-- A change made for an operator is posted, where it leaves the balance as it is.
theorem changeCard_posts {change : Card → Result (Option (Card × Option Json))}
    (hop : op.Records t (eventId action cardId now t.ledger.length))
    (h : ∀ {card card' d}, change card = .ok (some (card', d)) →
      ∃ turns, op.Turns cardId turns ∧ Card.Same turns card card') :
    Posts t op (t.changeCard cardId action operator reason now change) := by
  intro c pub a hc
  simp only [Tables.changeCard, bind_eq_ok', getCard_eq_ok] at hc
  have ⟨_, _, card, hf, changed, hch, he⟩ := hc
  cases changed
  case none => cases he
  case some changed =>
    have ⟨turns, ht, hs⟩ := h hch
    cases he
    exact ⟨_, _, _, _, rfl, hop, rfl, fun _ => rfl, rfl, turns, ht, .of_event hf hs rfl rfl rfl⟩

theorem unbanCard_posts :
    Posts t (.unbanCard cardId operator reason now)
      (t.unbanCard cardId operator reason now) := by
  refine changeCard_posts rfl fun h => ?_
  simp only [bind_eq_ok', exists_unit, pure_eq_ok, ensure_eq_ok, decide_eq_true_eq] at h
  have ⟨hs, _, h⟩ := h
  cases h
  refine ⟨_, ⟨rfl, rfl⟩, ⟨⟨rfl, ?_⟩, rfl, rfl, rfl⟩, rfl⟩
  simp only [Lifecycle.turns_single, Lifecycle.turn]
  exact if_pos hs

theorem changeCardGroup_posts :
    Posts t (.changeCardGroup cardId groupId operator reason now)
      (t.changeCardGroup cardId groupId operator reason now) := by
  refine changeCard_posts rfl fun h => ?_
  simp only [bind_eq_ok', exists_unit, pure_eq_ok] at h
  have ⟨_, _, _, h⟩ := h
  split at h
  case isTrue => cases h
  case isFalse =>
    cases h
    exact ⟨_, ⟨rfl, rfl⟩, ⟨⟨rfl, rfl⟩, rfl, rfl, rfl⟩, rfl⟩

variable [F64 F] [Host F]

-- Each card is extended by a post. What is published is what was posted.
structure Extends (t : Tables F) (op : Op F) (s : Tables.Extended F) : Prop where
  published : Tables.publishExtended s t = s.tables
  keyed     : s.tables.Keyed
  longer    : t.ledger.length ≤ s.tables.ledger.length
  receipts  : s.tables.responseTemplateReceipts = t.responseTemplateReceipts
  steps     : ∃ cs, Change.Steps t cs s.tables ∧ ∀ c ∈ cs, op.Makes t c

theorem extendOne_extends {s s' : Tables.Extended F} {cardIds : List String}
    {id : String} (hm : id ∈ cardIds) (hs : Extends t (.extendValidity cardIds x operator reason now) s)
    (h : Tables.extendOne x named reason now s id = .ok s') :
    Extends t (.extendValidity cardIds x operator reason now) s' := by
  have ⟨card, entry, turns, h, hp, ht, hk, hi, _⟩ := extendOne_cases h
  subst h
  have ⟨old, ho, hid, _⟩ := hp.found
  have hstep : Change.Step s.tables (.post turns id card entry)
      (s.tables.withCard id card [entry]) := .post hp
  have hc : card.id = id := hid.trans (hs.keyed.cards ho)
  constructor
  case published =>
    have hpub := hs.published
    simp only [Tables.publishExtended] at hpub
    simp only [Tables.publishExtended, List.foldl_append, List.foldl_cons, List.foldl_nil,
      Tables.withCard, ←List.append_assoc, hc, ←hpub]
  case keyed => exact hstep.keyed hs.keyed
  case longer =>
    have := hs.longer
    simp [Tables.withCard]
    omega
  case receipts => exact hs.receipts
  case steps =>
    have ⟨cs, hr, hcs⟩ := hs.steps
    refine ⟨cs ++ [.post turns id card entry], hr.trans (.single hstep), ?_⟩
    intro c hc
    cases List.mem_append.mp hc
    case inl hc => exact hcs c hc
    case inr hc =>
      rw [List.mem_singleton.mp hc]
      exact .post (fun _ => given_adjustment hk) ⟨id, hm, _, hs.longer, rfl⟩ ⟨hm, ht⟩ hi

theorem mem_foldl_pushNew {xs ys : List String} (h : x ∈ xs.foldl pushNew ys) :
    x ∈ ys ∨ x ∈ xs := by
  induction xs generalizing ys
  case nil => exact .inl h
  case cons z zs hi =>
    cases hi h
    case inr h => exact .inr (by simp [h])
    case inl h =>
      unfold pushNew at h
      split at h
      case isTrue => exact .inl h
      case isFalse =>
        cases List.mem_append.mp h
        case inl h => exact .inl h
        case inr h => exact .inr (by simp_all)

theorem extendValidity_commits (hk : t.Keyed) :
    Commits t (Op.Makes t (.extendValidity cardIds x operator reason now))
      (t.extendValidity cardIds x operator reason now) := by
  refine .of_write fun h => ?_
  simp only [Tables.extendValidity, bind_eq_ok', exists_unit, pure_eq_ok] at h
  have ⟨named, _, _, _, s, hs, h⟩ := h
  cases h
  have he : Extends t (.extendValidity cardIds x operator reason now) s := by
    refine foldlM_preserves (fun _ id _ hm hs h => ?_) ?_ hs
    · refine extendOne_extends ?_ hs h
      simpa using mem_foldl_pushNew hm
    · exact ⟨by simp [Tables.publishExtended], hk, le_refl _, rfl, [], .nil, by simp⟩
  exact ⟨he.published, he.receipts, he.steps⟩

theorem adjustCardBalance_commits (parse : String → Option Json) (index : CompensationIndex)
    (archives : List (List (LedgerEntry F))) (a : BalanceAdjustment) :
    Commits t (Op.Makes t (.adjustCardBalance a))
      (t.adjustCardBalance parse index archives a) := by
  refine .of_write fun h => ?_
  simp only [Tables.adjustCardBalance, bind_eq_ok', exists_unit, ensure_eq_ok] at h
  have ⟨_, _, hd, _, h⟩ := h
  split at h
  case h_1 =>
    simp only [replayAdjustment, bind_eq_ok', exists_unit, pure_eq_ok] at h
    cases h.right
  case h_2 =>
    simp only [Tables.newAdjustment, bind_eq_ok', exists_unit, pure_eq_ok, getCard_eq_ok] at h
    have ⟨_, card, hc, _, card', ha, h⟩ := h
    cases h
    have hd : a.deltaMicroCredits ≠ 0 := by simpa using hd
    refine ⟨rfl, rfl, Commits.of_step (.post ?_)
      (.post (fun _ => given_adjustment rfl) rfl ⟨rfl, rfl⟩ rfl)⟩
    refine ⟨⟨card, hc, Card.adjusted_eq_ok ha rfl rfl hd⟩, rfl, nofun, nofun, fun ht old ho => ?_⟩
    rw [hc] at ho
    cases ho
    exact Card.adjusted_covered ha rfl rfl ht

omit [Host F] in
theorem upgradeCard_posts {u : CardUpgrade} :
    Posts t (.upgradeCard u)
      (t.upgradeCard parse u) := by
  intro c pub a h
  simp only [Tables.upgradeCard, bind_eq_ok', exists_unit, ensure_eq_ok, Bool.and_eq_true,
    decide_eq_true_eq] at h
  have ⟨named, _, _, ⟨hd, _⟩, h⟩ := h
  split at h
  case h_1 =>
    simp only [bind_eq_ok', exists_unit, pure_eq_ok] at h
    have ⟨_, _, _, h⟩ := h
    cases h
  case h_2 =>
    simp only [Tables.newUpgrade, bind_eq_ok', exists_unit, pure_eq_ok, getCard_eq_ok] at h
    have ⟨card, hc, _, _, plan, _, group, _, _, ⟨card', d⟩, hx, h⟩ := h
    have ⟨turns, hs, hkept⟩ := cardExtension_eq_ok hx
    have ⟨turns', hs, hturn⟩ := hkept.toTurned.upgraded u (u.groupId.getD plan.defaultGroupId)
      { plan.snapshot with paidMicroCny := some u.cashMicroCny } hs
    have ht := hkept.total
    have hus := hkept.used
    have ⟨ho, hk, hv, hn⟩ := upgradeEntry_spec (F := F) t.ledger.length u named (Text.trim u.reason)
      (upgradeDetail u plan (u.groupId.getD plan.defaultGroupId) card card' d
        { plan.snapshot with paidMicroCny := some u.cashMicroCny })
    have hd : ¬ u.creditsDelta < 0 := mt I64.lt_def.mp (Int.not_lt.mpr hd)
    refine ⟨_, _, _, _, h.symm, rfl, hn, upgradeEntry_isCompensation hx, hk, turns', ⟨rfl, hs⟩, ?_⟩
    refine ⟨⟨card, hc, hturn.id, hkept.reserved, ?_, ?_, hkept.family, hturn⟩, ho, by simp [hk],
      by simp [hk], by simp [LedgerEntry.taken, hv, hd, I64.lt_def]⟩
    · simp_all [Card.upgraded, LedgerEntry.given]
    · simp_all [Card.upgraded, LedgerEntry.taken]

theorem redeemTopup_commits {hash : String → String} (hk : t.Keyed) :
    Commits t (Op.Makes t (.redeemTopup cardId code now operator))
      (t.redeemTopup hash cardId code now operator) := by
  refine .of_write fun h => ?_
  simp only [Tables.redeemTopup, bind_eq_ok', exists_unit, pure_eq_ok, getCard_eq_ok,
    ofOption_eq_ok] at h
  have ⟨⟨key, c⟩, hf, card, hc, _, _, h⟩ := h
  cases h
  have hl : t.topupCodes.lookup key = some c :=
    AList.mem_entries_iff.mp (List.mem_of_find?_eq_some hf)
  have hopen : ¬c.isUsed := by
    have := List.find?_some hf
    simp only [Bool.and_eq_true, Bool.not_eq_true'] at this
    simp [this.right]
  have hid := hk.topupCodes hl
  let used : TopupCode :=
    { c with isUsed := true, usedByCardId := some cardId, usedAt := some now }
  let t₁ := { t with topupCodes := t.topupCodes.insert key used }
  have huse : Change.Step t (.use (t.topupCodes.insert key used)) t₁ := by
    refine .use fun {k c'} h => ?_
    cases AList.lookup_insert_iff.mp h
    case inl h =>
      have ⟨h, hc'⟩ := h
      subst h hc'
      exact ⟨c, hl, rfl, rfl, fun hu => absurd hu hopen⟩
    case inr h => exact ⟨c', h.right, rfl, rfl, fun _ => rfl⟩
  have hpost : Postable t₁ [.wake] cardId (Tables.toppedUp used card now)
      (Tables.topupEntry used cardId operator now) :=
    ⟨⟨card, hc, rfl, rfl, rfl, (I64.satAdd_zero _).symm, rfl, rfl, rfl⟩, rfl, nofun,
      fun _ => .inr ⟨key, used, AList.lookup_insert _, rfl⟩, nofun⟩
  refine ⟨?_, rfl, [_, _], .cons huse (.single (.post hpost)), ?_⟩
  · simp only [Tables.withTopup, hid]
  · simp only [List.mem_cons, List.not_mem_nil, or_false, forall_eq_or_imp, forall_eq]
    exact ⟨.use, .post nofun ⟨key, c, hl, rfl⟩ ⟨rfl, rfl⟩ rfl⟩

theorem renewWithCard_commits {hash : String → String} (hk : t.Keyed) :
    Commits t (Op.Makes t (.renewWithCard cardId code now))
      (t.renewWithCard hash cardId code now) := by
  refine .of_write fun h => ?_
  simp only [Tables.renewWithCard, bind_eq_ok', exists_unit, pure_eq_ok, getCard_eq_ok,
    ofOption_eq_ok, ensure_eq_ok, Bool.and_eq_true, decide_eq_true_eq] at h
  obtain ⟨source, hf, ⟨⟨hne, hun⟩, hpos⟩, target, hc, hopen, total, ht, h⟩ := h
  cases h
  obtain ⟨k, hl⟩ := AList.mem_values.mp (List.mem_of_find?_eq_some hf)
  have hid := hk.cards hl
  subst hid
  simp only [Tables.isUntouched, Bool.and_eq_true, decide_eq_true_eq] at hun
  have hused : source.creditUsed = 0 := hun.1.1.2
  have hpos : 0 < source.creditTotal.val := hpos
  have hu := source.creditTotal.upper
  have hp₁ : Postable t [.wake] cardId (target.renewed total now)
      (renewalEntry source cardId now) := by
    refine ⟨⟨target, hc, rfl, rfl, I64.checkedAdd_satAdd ht, (I64.satAdd_zero _).symm, rfl, rfl, ?_⟩,
      rfl, by rintro ⟨⟩, fun _ => .inl (I64.le_def.mpr hpos.le), by rintro ⟨⟩⟩
    have hopen := hopen.left
    simp only [Bool.or_eq_true, decide_eq_true_eq] at hopen
    simp only [Lifecycle.turns_single, Lifecycle.turn, Card.lifecycle, CardStatus.woken,
      Card.renewed]
    cases hopen <;> simp_all
  have htaken : (renewalDebit (F := F) source cardId now).taken = source.creditTotal := by
    have h : source.creditTotal.satNeg < 0 := I64.lt_def.mpr (by simp; omega)
    simp only [LedgerEntry.taken, renewalDebit, h, I64.eq_iff]
    simp
    omega
  have hfound : (t.withCard cardId (target.renewed total now)
      [renewalEntry source cardId now]).cards.lookup source.id = some source := by
    rw [Tables.withCard, AList.lookup_insert_ne hne, hl]
  have hp₂ : Postable (t.withCard cardId (target.renewed total now)
      [renewalEntry source cardId now]) [.consume] source.id source.consumed
      (renewalDebit source cardId now) := by
    refine ⟨⟨source, hfound, rfl, rfl, ?_, ?_, rfl, rfl, by
      simp [Card.lifecycle, Card.consumed, Lifecycle.turn, hun.1.1.1.1.1]⟩, rfl, by rintro ⟨⟩, by rintro ⟨⟩,
      fun _ old ho => ?_⟩
    · have h : ¬ 0 ≤ source.creditTotal.satNeg := mt I64.le_def.mp (by simp; omega)
      simp [LedgerEntry.given, renewalDebit, Card.consumed, h]
    · rw [htaken]
      simp only [Card.consumed, hused, I64.eq_iff]
      simp
      omega
    · rw [hfound] at ho
      cases ho
      rw [htaken, Card.availableCredits, hused, hun.1.2, I64.le_def]
      simp
      omega
  have hs := Run.cons (Change.Step.post hp₁) (.single (.post hp₂))
  simp only [Tables.withCard, List.append_assoc, List.singleton_append] at hs
  refine ⟨rfl, rfl, _, hs, ?_⟩
  simp only [List.mem_cons, List.not_mem_nil, or_false, forall_eq_or_imp, forall_eq]
  have hg : 0 ≤ (renewalEntry (F := F) source cardId now).given := I64.le_def.mpr hpos.le
  exact ⟨.post (fun _ => hg) ⟨_, source, hl, rfl⟩ (.inl ⟨rfl, rfl⟩) rfl,
    .post (fun _ => given_adjustment rfl) ⟨_, source, hl, rfl⟩ (.inr ⟨hne, rfl⟩) rfl⟩

theorem archiveLedger_commits (before : Nat) (receipt : ArchivedLedgerReceipt)
    (hr : receipt.drainedEntriesCount = (t.archived before).length) :
    Commits t (Op.Makes t (.archiveLedger before)) (t.archiveLedger before receipt) := by
  refine .of_write fun h => ?_
  simp only [Tables.archiveLedger, bind_eq_ok', exists_unit, pure_eq_ok, ensure_eq_ok] at h
  have ⟨hn, h⟩ := h
  cases h
  exact ⟨rfl, rfl, Commits.of_step (.archive (by simpa using hn) hr) .archive⟩

omit [F64 F] [Host F] in
theorem extendReservation_eq_ok (h : t.extendReservation id amount now = .ok txn) :
    ∃ r card reserved, t.reservations.lookup id = some r ∧
      Extendable t id card reserved { r with reservedMicroCredits := amount } ∧
      r.reservedMicroCredits ≤ amount ∧ card.outstandingDebt ≤ 0 ∧
      t.checkQuota card (amount.satSub r.reservedMicroCredits) now = .ok () ∧
      txn = .write (t.extendWith id card reserved { r with reservedMicroCredits := amount })
        (·.extendWith id card reserved { r with reservedMicroCredits := amount })
        { r with reservedMicroCredits := amount } := by
  simp only [Tables.extendReservation, checkNoDebt, bind_eq_ok', exists_unit, pure_eq_ok,
    ofOption_eq_ok, ensure_eq_ok, decide_eq_true_eq] at h
  have ⟨r, hr, hh, hle, card, hc, hq, _, hd, reserved, ha, h⟩ := h
  exact ⟨r, card, reserved, hr, ⟨hc, noPending_of_checkQuota hq, r, hr, hh, rfl, hle,
    I64.checkedAdd_eq_some.mp ha⟩, hle, hd, hq, h.symm⟩

theorem extendReservation_commits :
    Commits t (Op.Makes t (.extendReservation id amount now))
      (t.extendReservation id amount now) := by
  refine .of_write fun h => ?_
  have ⟨_, _, _, _, he, _, _, _, h⟩ := extendReservation_eq_ok h
  cases h
  exact ⟨rfl, rfl, Commits.of_step (.extend he) .extend⟩

theorem publishCommercialConfig_commits :
    Commits t (Op.Makes t (.publishCommercialConfig u now))
      (Commercial.publishCommercialConfig t u now) := by
  refine .of_write fun h => ?_
  have ⟨hpub, hp⟩ := Commercial.publish_cases h
  refine ⟨hpub ▸ hp.configured.symm, ?_, Commits.of_step (.publish hp) .publish⟩
  rw [hp.configured]
  rfl

omit [Host F] in
theorem completePendingSettlement_eq_ok {p : PendingSettlement F}
    (hp : t.pendingSettlements.lookup id = some p)
    (h : t.completePendingSettlement id p = .ok txn) :
    ∃ r card, Debitable t id r card (t.finalEntry id p) ∧
      txn = .write (t.debit id r card (t.finalEntry id p))
        (t.debit id r card (t.finalEntry id p)).publishSettlement (t.finalEntry id p) := by
  simp only [Tables.completePendingSettlement, bind_eq_ok', pure_eq_ok] at h
  have ⟨_, ha, h⟩ := h
  have ⟨r, card, ha, hd⟩ := applyPendingSettlement_cases (.inl hp) ha
  subst ha
  exact ⟨r, card, hd, h.symm⟩

theorem completePendingSettlement_commits {p : PendingSettlement F} {M : Change F → Prop}
    (hp : t.pendingSettlements.lookup id = some p)
    (hm : ∀ {r card entry}, M (.debit id r card entry)) :
    Commits t M (t.completePendingSettlement id p) := by
  refine .of_write fun h => ?_
  have ⟨r, card, hd, h⟩ := completePendingSettlement_eq_ok hp h
  cases h
  exact ⟨publishSettlement_debit .., rfl, Commits.of_step (.debit hd) hm⟩

theorem retryPendingSettlement_commits :
    Commits t (Op.Makes t (.retryPendingSettlement id)) (t.retryPendingSettlement id) := by
  unfold Tables.retryPendingSettlement
  split
  case h_1 => exact .of_write nofun
  case h_2 =>
    cases hp : t.pendingSettlements.lookup id
    case none => exact .of_error
    case some p => exact completePendingSettlement_commits hp .retry

theorem runJanitor_commits (active : Table String Nat) (now : Nat) (hk : t.Keyed) :
    Commits t (Op.Makes t (.runJanitor now)) (t.runJanitor active now) := by
  refine .of_write fun h => ?_
  simp only [Tables.runJanitor] at h
  split at h
  case isTrue => cases h
  case isFalse =>
    cases h
    exact ⟨Tables.publishJanitor_eq hk, rfl, Commits.of_step .clean .clean⟩

end

section

variable [F64 F] [Host F] {e : Engine F}

-- What is checked before a template's answer is charged.
structure TemplateChargeable (e : Engine F) (old card : Card) (entry : LedgerEntry F)
    (r : ResponseTemplateReceipt) : Prop where
  chargeable : Chargeable e.tables card entry r
  found      : e.tables.cards.lookup r.cardId = some old
  room       : e.activeCardConcurrency old.id (some r.invocationId) < old.maxConcurrency
  quota      : e.tables.checkQuota old r.priceMicrocredits r.createdAtSecs = .ok ()
  noDebt     : old.outstandingDebt ≤ 0

omit [F64 F] [Host F] in
theorem checkCanReserve_covered {card : Card} {needed : I64}
    (h : liftCard (card.checkCanReserve needed now) = .ok ()) : needed ≤ card.availableCredits := by
  simp only [liftCard_eq_ok, Card.checkCanReserve, bind_eq_ok', ensure_eq_ok,
    decide_eq_true_eq] at h
  have ⟨_, _, hn⟩ := h
  exact hn

omit [F64 F] in
theorem templateCharge_eq_ok {r : ResponseTemplateReceipt}
    (h : e.templateCharge revision ruleId modelId r now = .ok txn) :
    ∃ old card entry, TemplateChargeable e old card entry { r with createdAtSecs := now } ∧
      txn = .write
        (e.tables.withCharge card entry
          (e.tables.retainReceipts now ++ [{ r with createdAtSecs := now }]))
        (·.withCharge card entry (e.tables.retainReceipts now ++ [{ r with createdAtSecs := now }]))
        entry := by
  simp only [Engine.templateCharge, checkConcurrency, bind_eq_ok', exists_unit, pure_eq_ok,
    ensure_eq_ok, ofOption_eq_ok, getCard_eq_ok, decide_eq_true_eq] at h
  have ⟨hv, _, v, hf, hnb, hag, hk, hcap, card, hc, htc, hcc, hq, used, hu, hb, h⟩ := h
  simp only [Tables.isKnownInvocation, Bool.not_eq_true', Bool.or_eq_false_iff,
    Option.any_eq_false, List.any_eq_false, decide_eq_false_iff_not, decide_eq_true_eq] at hk
  have ⟨⟨⟨⟨⟨hres, hpend⟩, hled⟩, htmp⟩, hadj⟩, hrec⟩ := hk
  simp only [Tables.agrees, Bool.and_eq_true, decide_eq_true_eq] at hag
  have hprice := hag.right
  have hmodel := hag.left.left.left.left
  simp only [Tables.checkReceiptCapacity, ensure_eq_ok, Bool.and_eq_true,
    decide_eq_true_eq] at hcap
  simp only [Tables.checkTemplateCard, bind_eq_ok', exists_unit, ensure_eq_ok,
    decide_eq_true_eq] at htc
  refine ⟨card, _, _, ⟨?_, hc, hcc, hprice ▸ hq, htc.right.left⟩, h.symm⟩
  constructor
  case valid => exact hv
  case found => exact ⟨card, hc, rfl, by rw [I64.checkedAdd_eq_some.mp hu]; rfl⟩
  case covered =>
    intro old ho
    rw [hc, Option.some.injEq] at ho
    subst ho
    exact checkCanReserve_covered htc.left
  case unreserved =>
    intro r' hr'
    simpa using hres r' hr'
  case notPending => exact hpend
  case unbilled => exact hled
  case notTemplate => exact htmp
  case notAdjusted => exact hadj
  case newReceipt =>
    intro s hs
    have := hrec s hs
    simp only [Tables.isSameCall, Bool.or_eq_true, Bool.and_eq_true, decide_eq_true_eq] at this
    tauto
  case noPending => exact noPending_of_checkQuota hq
  case capacity => exact hcap.left
  case budget => exact hb
  case billed => exact ⟨revision, ruleId, by simp [hprice, hmodel, Tables.templateEntry]⟩

omit [F64 F] in
theorem newTemplateIds_withCharge {t : Tables F} {r : ResponseTemplateReceipt}
    (h : Chargeable t card entry r) :
    newTemplateIds t (t.withCharge card entry (t.retainReceipts r.createdAtSecs ++ [r])) =
      [r.invocationId] := by
  have hn : t.responseTemplateReceipts.any (·.invocationId = r.invocationId) = false := by
    simpa using fun s hs => (h.newReceipt s hs).left
  have hr : (t.retainReceipts r.createdAtSecs).filter (fun s =>
      !t.responseTemplateReceipts.any (·.invocationId = s.invocationId)) = [] := by
    simp only [List.filter_eq_nil_iff, Tables.retainReceipts, List.mem_filter]
    intro s hs
    simpa using ⟨s, hs.left, rfl⟩
  simp only [newTemplateIds, Tables.withCharge, List.filter_append, hr]
  simp [hn]

omit [F64 F] in
theorem TemplateChargeable.normalized {old : Card} {r : ResponseTemplateReceipt}
    (h : TemplateChargeable e old card entry r)
    (hn : normalize e.tables (e.tables.withCharge card entry
      (e.tables.retainReceipts r.createdAtSecs ++ [r])) = .ok n) :
    n = e.tables.charged card entry r ∧
      validateTemplateInvocationCapacity n.archivedLedgerSummary = .ok () := by
  have hi := newTemplateIds_withCharge h.chargeable
  cases normalize_cases hn
  case inl hn => simp [hi] at hn
  case inr hn =>
    have ⟨ids, hn, _, hv, hf⟩ := hn
    simp only [hi, List.foldlM_cons, List.foldlM_nil, bind_eq_ok', pure_eq_ok,
      insertNew_eq_ok] at hf
    have ⟨_, ⟨_, hids⟩, he⟩ := hf
    subst he hids
    exact ⟨hn, hv⟩

theorem templateCharge_commits :
    Commits e.tables (Op.Makes e.tables (.chargeResponseTemplate revision ruleId modelId r now))
      (e.templateCharge revision ruleId modelId r now) where
  publishes h := by
    have ⟨_, _, _, _, he⟩ := templateCharge_eq_ok h
    cases he
    rfl
  steps h hn := by
    have ⟨_, _, _, hc, he⟩ := templateCharge_eq_ok h
    cases he
    have ⟨hn, hv⟩ := hc.normalized hn
    subst hn
    exact Commits.of_step (.charge hc.chargeable hv) (.charge rfl rfl)

theorem publishTemplates_commits :
    Commits e.tables (Op.Makes e.tables (.publishResponseTemplates u now))
      (e.publishTemplates u now) := by
  refine .of_write fun h => ?_
  simp only [Engine.publishTemplates, bind_eq_ok', exists_unit, pure_eq_ok, ensure_eq_ok] at h
  have ⟨hv, _, _, _, h⟩ := h
  cases h
  exact ⟨rfl, rfl, Commits.of_step (.templates hv) .templates⟩

end
end Billing
