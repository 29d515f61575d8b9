import Superkiro.Billing.Effects

namespace Billing

open F64 Except Host

-- What binding a device and the like leave of a card.
theorem Card.Same.revoked {card card' : Card} (ht : card'.terms = card.terms)
    (hl : card'.lifecycle = card.lifecycle.revoked) (hr : card'.creditReserved = card.creditReserved)
    (htot : card'.creditTotal = card.creditTotal) (hu : card'.creditUsed = card.creditUsed)
    (hf : card'.family = card.family) : Card.Same [.revoke] card card' :=
  ⟨⟨⟨ht, by simp [Lifecycle.turn, hl]⟩, hr, htot, hu⟩, hf⟩

theorem Card.Same.unturned {card card' : Card} (ht : card'.terms = card.terms)
    (hl : card'.lifecycle = card.lifecycle) (hr : card'.creditReserved = card.creditReserved)
    (htot : card'.creditTotal = card.creditTotal) (hu : card'.creditUsed = card.creditUsed)
    (hf : card'.family = card.family) : Card.Same [] card card' :=
  ⟨⟨⟨ht, by simp [hl]⟩, hr, htot, hu⟩, hf⟩

-- A first sign-in activates a card, and a later one leaves it as it is.
theorem Card.activate_same {card card' : Card} (h : card.activate now duration = .ok card') :
    ∃ turns, (turns = [] ∨ turns = [.activate now]) ∧ Card.Same turns card card' := by
  simp only [Card.activate, bind_eq_ok', exists_unit] at h
  have h := h.right
  cases hs : card.status <;> simp only [hs, throw_ne_ok] at h
  case active =>
    simp only [bind_eq_ok', exists_unit, pure_eq_ok] at h
    rw [←h.right]
    exact ⟨[], .inl rfl, .unturned rfl rfl rfl rfl rfl rfl⟩
  case unactivated =>
    simp only [pure_eq_ok] at h
    rw [←h]
    refine ⟨_, .inr rfl, ⟨⟨⟨rfl, ?_⟩, rfl, rfl, rfl⟩, rfl⟩⟩
    simp [Lifecycle.turn, Card.lifecycle, hs]

theorem Card.bindDeviceLocked_same {card : Card} {x : Card × Bool}
    (h : card.bindDeviceLocked device = .ok x) : Card.Same [] card x.1 := by
  simp only [Card.bindDeviceLocked, bind_eq_ok', exists_unit, pure_eq_ok] at h
  have ⟨_, _, _, h⟩ := h
  split at h
  all_goals
    rw [←h]
    exact .unturned rfl rfl rfl rfl rfl rfl

theorem Card.bindGiven_same {card card' : Card} (h : card.bindGiven device = .ok card') :
    Card.Same [] card card' := by
  simp only [Card.bindGiven] at h
  split at h
  case h_1 =>
    simp only [bind_eq_ok', pure_eq_ok] at h
    have ⟨x, hx, hc⟩ := h
    exact hc ▸ Card.bindDeviceLocked_same hx
  case h_2 =>
    cases h
    exact .unturned rfl rfl rfl rfl rfl rfl

theorem Card.Same.trans {a b c : Card} (h : Card.Same ts a b) (h' : Card.Same [] b c) :
    Card.Same ts a c where
  terms     := h'.terms.trans h.terms
  lifecycle := by
    have := h'.lifecycle
    simp only [Lifecycle.turns_nil, Option.some.injEq] at this
    exact this ▸ h.lifecycle
  reserved  := h'.reserved.trans h.reserved
  total     := h'.total.trans h.total
  used      := h'.used.trans h.used
  family    := h'.family.trans h.family

section

variable {t : Tables F} {op : Op F}

-- A transaction that replaces a card.
def Replaces (t : Tables F) (op : Op F) (txn : Result (Txn F α)) : Prop :=
  ∀ ⦃c pub a⦄, txn = .ok (.write c pub a) → ∃ key old card turns,
    Txn.write c pub a = t.replaceCard key card a ∧ t.cards.lookup key = some old ∧
    op.Turns key turns ∧ Card.Kept turns old card ∧ op.Refreshes old.family card.family

theorem Commits.of_replace [F64 F] [Host F] {txn : Result (Txn F α)} (h : Replaces t op txn) :
    Commits t (op.Makes t) txn := by
  refine .of_write fun he => ?_
  have ⟨key, old, card, turns, hw, hf, ht, hk, hr⟩ := h he
  cases hw
  exact ⟨rfl, rfl, of_step (.replace ⟨old, hf, hk⟩) (.replace ht hf hr)⟩

theorem activateCard_replaces :
    Replaces t (.activateCard cardId now duration)
      (t.activateCard cardId now duration) := by
  intro c pub a h
  simp only [Tables.activateCard, bind_eq_ok', exists_unit, pure_eq_ok, getCard_eq_ok,
    liftCard_eq_ok] at h
  have ⟨card, hc, _, card', ha, h⟩ := h
  cases h
  have ⟨turns, ht, hs⟩ := Card.activate_same ha
  exact ⟨_, card, _, turns, rfl, hc, ⟨rfl, ht⟩, hs.toKept, hs.family⟩

theorem activateCardWithDevice_replaces :
    Replaces t (.activateCardWithDevice cardId now duration device)
      (t.activateCardWithDevice cardId now duration device) := by
  intro c pub a h
  simp only [Tables.activateCardWithDevice, bind_eq_ok', pure_eq_ok, getCard_eq_ok,
    liftCard_eq_ok] at h
  have ⟨card, hc, card₁, ha, card₂, hb, h⟩ := h
  cases h
  have ⟨turns, ht, hs⟩ := Card.activate_same ha
  have hs := hs.trans (Card.bindGiven_same hb)
  refine ⟨_, card, _, turns, rfl, hc, ⟨rfl, ht⟩, ⟨⟨hs.terms, hs.lifecycle⟩, hs.reserved, hs.total,
    hs.used⟩, ?_⟩
  rw [Op.Refreshes, ←hs.family]
  rfl

theorem bindDevice_replaces :
    Replaces t (.bindDevice cardId device)
      (t.bindDevice cardId device) := by
  intro c pub a h
  simp only [Tables.bindDevice, bind_eq_ok', pure_eq_ok, getCard_eq_ok] at h
  have ⟨card, hc, x, hb, h⟩ := h
  have hs := Card.bindDeviceLocked_same hb
  split at h
  case isTrue =>
    cases h
    exact ⟨_, card, _, [], rfl, hc, ⟨rfl, rfl⟩, hs.toKept, hs.family⟩
  case isFalse => cases h

theorem unbindDevice_replaces :
    Replaces t (.unbindDevice cardId device)
      (t.unbindDevice cardId device now) := by
  intro c pub a h
  simp only [Tables.unbindDevice, bind_eq_ok', exists_unit, pure_eq_ok, getCard_eq_ok] at h
  have ⟨card, hc, _, _, h⟩ := h
  cases h
  have hs : Card.Same [.revoke] card { card.withoutDevice device with
    rebindCount := min (card.rebindCount + 1) 4294967295, lastRebindAt := some now } :=
    .revoked rfl rfl rfl rfl rfl rfl
  exact ⟨_, card, _, _, rfl, hc, ⟨rfl, rfl⟩, hs.toKept, rfl⟩

theorem adminUnbindDevice_posts :
    Posts t (.adminUnbindDevice cardId device operator reason now)
      (t.adminUnbindDevice cardId device operator reason now) := by
  refine changeCard_posts rfl fun h => ?_
  simp only [bind_eq_ok', exists_unit, pure_eq_ok] at h
  have ⟨_, h⟩ := h
  cases h
  exact ⟨_, ⟨rfl, rfl⟩, .revoked rfl rfl rfl rfl rfl rfl⟩

theorem resetRebinds_posts :
    Posts t (.resetRebinds cardId operator reason now)
      (t.resetRebinds cardId operator reason now) := by
  refine changeCard_posts rfl fun h => ?_
  simp only [pure_eq_ok] at h
  split at h
  case isTrue => cases h
  case isFalse =>
    cases h
    exact ⟨_, ⟨rfl, rfl⟩, .unturned rfl rfl rfl rfl rfl rfl⟩

theorem rekeyCard_posts {hash : String → String} :
    Posts t (.rekeyCard cardId new operator reason now)
      (t.rekeyCard hash cardId new operator reason now) := by
  refine changeCard_posts rfl fun h => ?_
  simp only [bind_eq_ok', exists_unit, pure_eq_ok] at h
  have ⟨_, _, _, h⟩ := h
  cases h
  exact ⟨_, ⟨rfl, rfl⟩, .revoked rfl rfl rfl rfl rfl rfl⟩

theorem setCardCodeHash_replaces :
    Replaces t (.setCardCodeHash cardId codeHash)
      (t.setCardCodeHash cardId codeHash) := by
  intro c pub a h
  simp only [Tables.setCardCodeHash, bind_eq_ok', exists_unit, pure_eq_ok, getCard_eq_ok] at h
  have ⟨_, card, hc, h⟩ := h
  cases h
  have hs : Card.Same [.revoke] card (card.rekeyed codeHash none) :=
    .revoked rfl rfl rfl rfl rfl rfl
  exact ⟨_, card, _, _, rfl, hc, ⟨rfl, rfl⟩, hs.toKept, rfl⟩

theorem revokeTokens_replaces :
    Replaces t (.revokeTokens cardId)
      (t.revokeTokens cardId) := by
  intro c pub a h
  simp only [Tables.revokeTokens, bind_eq_ok', pure_eq_ok, getCard_eq_ok] at h
  have ⟨card, hc, h⟩ := h
  cases h
  have hs : Card.Same [.revoke] card { card with tokenVersion := satAddU64 card.tokenVersion 1 } :=
    .revoked rfl rfl rfl rfl rfl rfl
  exact ⟨_, card, _, _, rfl, hc, ⟨rfl, rfl⟩, hs.toKept, rfl⟩

theorem setCardArchived_posts :
    Posts t (.setCardArchived cardId archived operator reason now)
      (t.setCardArchived cardId archived operator reason now) := by
  intro c pub a h
  simp only [Tables.setCardArchived, bind_eq_ok', exists_unit, getCard_eq_ok] at h
  have ⟨_, _, card, hc, h⟩ := h
  split at h
  case isTrue => cases h
  case isFalse =>
    simp only [bind_eq_ok', exists_unit, pure_eq_ok] at h
    have ⟨_, h⟩ := h
    cases h
    exact ⟨_, _, _, _, rfl, rfl, rfl, fun _ => rfl, rfl, [], ⟨rfl, rfl⟩,
      .of_event hc (.unturned rfl rfl rfl rfl rfl rfl) rfl rfl rfl⟩

variable [F64 F] [Host F]

theorem consumeRefreshToken_commits :
    Commits t (Op.Makes t (.consumeRefreshToken jti expires now))
      (t.consumeRefreshToken jti expires now) := by
  refine .of_write fun h => ?_
  simp only [Tables.consumeRefreshToken, bind_eq_ok', exists_unit, pure_eq_ok] at h
  have ⟨_, _, h⟩ := h
  cases h
  exact ⟨rfl, rfl, Commits.of_step .consume .consume⟩

-- A rotation also forgets the tokens that expired.
theorem rotateRefresh_commits :
    Commits t (Op.Makes t (.rotateRefresh cardId presented jti expires now grace))
      (t.rotateRefresh cardId presented jti expires now grace) := by
  refine .of_write fun h => ?_
  simp only [Tables.rotateRefresh, bind_eq_ok', exists_unit, pure_eq_ok, getCard_eq_ok] at h
  have ⟨_, _, card, hc, _, h⟩ := h
  split at h
  case isFalse => cases h
  case isTrue hp =>
    cases h
    have hk : Card.Kept [] card (card.withRotation now) := ⟨⟨rfl, rfl⟩, rfl, rfl, rfl⟩
    have hs : Change.Steps t [.consume (t.unexpiredTokens now),
        .replace [] cardId (card.withRotation now)]
        ((t.withTokens (t.unexpiredTokens now)).putCard cardId (card.withRotation now)) :=
      .cons .consume (.single (.replace ⟨card, hc, hk⟩))
    refine ⟨rfl, rfl, _, hs, ?_⟩
    simp only [List.mem_cons, List.not_mem_nil, or_false, forall_eq_or_imp, forall_eq]
    exact ⟨.rotate, .replace ⟨rfl, rfl⟩ hc ⟨hp, rfl⟩⟩

end
end Billing
