import Superkiro.Billing.Turns

namespace Billing

open F64 Except Host

-- The status of a card as it was issued or seeded: not suspended, and active only once activated.
structure Lifecycle.New (l : Lifecycle) : Prop where
  bounded  : l.tokenVersion ≤ u64Max
  unfrozen : l.frozenFrom = none
  usable   : l.status = .unactivated ∨ (l.status = .active ∧ l.activatedAt.isSome)

theorem Lifecycle.New.sound {l : Lifecycle} (h : l.New) : l.Sound where
  bounded     := h.bounded
  unexpired   := by rcases h.usable with hs | ⟨hs, _⟩ <;> simp [hs]
  suspended s := by simp [h.unfrozen] at s
  frozen s    := by rcases h.usable with hs | ⟨hs, _⟩ <;> simp [hs] at s
  origin      := by simp [h.unfrozen]
  activated s := by
    rcases h.usable with hs | ⟨_, ha⟩
    · simp [hs, h.unfrozen] at s
    · exact ha

variable {op : Op F} {k : String}

-- Only a freeze freezes, and only an unfreeze unfreezes.
theorem Op.Turns.freeze (h : op.Turns k turns) (hm : .freeze ∈ turns) :
    ∃ operator reason now, op = .freezeCard k operator reason now := by
  cases op <;> simp only [Op.Turns] at h
  case freezeCard => exact ⟨_, _, _, by rw [h.left]⟩
  case extendValidity | activateCard | activateCardWithDevice =>
    rcases h.right with h | h <;> simp [h] at hm
  case renewWithCard => rcases h with h | h <;> simp [h.right] at hm
  case upgradeCard =>
    have := h.right.subset hm
    simp at this
  all_goals simp [h.right] at hm

theorem Op.Turns.unfreeze (h : op.Turns k turns) (hm : .unfreeze ∈ turns) :
    ∃ operator reason now, op = .unfreezeCard k operator reason now := by
  cases op <;> simp only [Op.Turns] at h
  case unfreezeCard => exact ⟨_, _, _, by rw [h.left]⟩
  case extendValidity | activateCard | activateCardWithDevice =>
    rcases h.right with h | h <;> simp [h] at hm
  case renewWithCard => rcases h with h | h <;> simp [h.right] at hm
  case upgradeCard =>
    have := h.right.subset hm
    simp at this
  all_goals simp [h.right] at hm

-- Only a sign-in activates.
theorem Op.Turns.activate (h : op.Turns k turns) (hm : .activate now ∈ turns) :
    (∃ duration, op = .activateCard k now duration) ∨
    ∃ duration device, op = .activateCardWithDevice k now duration device := by
  cases op <;> simp only [Op.Turns] at h
  case activateCard =>
    rcases h.right with ht | ht <;> simp [ht] at hm
    exact .inl ⟨_, by rw [h.left, hm]⟩
  case activateCardWithDevice =>
    rcases h.right with ht | ht <;> simp [ht] at hm
    exact .inr ⟨_, _, by rw [h.left, hm]⟩
  case extendValidity => rcases h.right with h | h <;> simp [h] at hm
  case renewWithCard => rcases h with h | h <;> simp [h.right] at hm
  case upgradeCard =>
    have := h.right.subset hm
    simp at this
  all_goals simp [h.right] at hm

-- Whether an operation signs a card in.
def Op.signsIn (k : String) : Op F → Bool
  | .activateCard cardId ..           => cardId = k
  | .activateCardWithDevice cardId .. => cardId = k
  | _                                 => false

theorem Op.Turns.signsIn (h : op.Turns k turns) (hm : .activate now ∈ turns) : op.signsIn k := by
  rcases h.activate hm with ⟨_, h⟩ | ⟨_, _, h⟩
  all_goals simp [h, Op.signsIn]

-- The card that an operation is about, and the turn it makes it take.
def Op.turning : Op F → Option (String × Turn)
  | .freezeCard cardId ..        => some (cardId, .freeze)
  | .unfreezeCard cardId ..      => some (cardId, .unfreeze)
  | .banCard cardId ..           => some (cardId, .ban)
  | .unbanCard cardId ..         => some (cardId, .unban)
  | .voidCard cardId ..          => some (cardId, .void)
  | .changeCardGroup cardId ..   => some (cardId, .revoke)
  | .unbindDevice cardId ..      => some (cardId, .revoke)
  | .adminUnbindDevice cardId .. => some (cardId, .revoke)
  | .rekeyCard cardId ..         => some (cardId, .revoke)
  | .setCardCodeHash cardId ..   => some (cardId, .revoke)
  | .revokeTokens cardId         => some (cardId, .revoke)
  | _                            => none

-- Whether a card already is as an operation asks.
def Op.IsDone (t : Tables F) : Op F → Prop
  | .voidCard cardId ..              => ∃ c, t.cards.lookup cardId = some c ∧ c.status = .voided
  | .changeCardGroup cardId group .. => ∃ c, t.cards.lookup cardId = some c ∧ c.groupId = group
  | _                                => False

-- Only voiding, and moving to a group, may find nothing to do.
theorem Op.turning_of_isDone {t : Tables F} (h : op.turning = some (k, turn)) (hd : op.IsDone t) :
    turn = .void ∨ turn = .revoke := by
  cases op <;> simp only [Op.IsDone] at hd
  case voidCard =>
    simp only [Op.turning, Option.some.injEq, Prod.mk.injEq] at h
    exact .inl h.right.symm
  case changeCardGroup =>
    simp only [Op.turning, Option.some.injEq, Prod.mk.injEq] at h
    exact .inr h.right.symm

section

variable {t : Tables F}

theorem freezeCard_ne_answer :
    t.freezeCard cardId operator reason now ≠ .ok (.answer card) := by
  intro h
  simp only [Tables.freezeCard, bind_eq_ok', exists_unit, pure_eq_ok] at h
  obtain ⟨_, _, _, _, _, h⟩ := h
  cases h

theorem unfreezeCard_ne_answer :
    t.unfreezeCard cardId operator reason now ≠ .ok (.answer card) := by
  intro h
  simp only [Tables.unfreezeCard, bind_eq_ok', exists_unit, pure_eq_ok] at h
  obtain ⟨_, _, _, _, _, _, h⟩ := h
  cases h

theorem banCard_ne_answer : t.banCard cardId operator reason now ≠ .ok (.answer card) := by
  intro h
  simp only [Tables.banCard, bind_eq_ok', exists_unit, pure_eq_ok] at h
  obtain ⟨_, _, _, _, _, h⟩ := h
  cases h

theorem changeCard_answer {change : Card → Result (Option (Card × Option Json))}
    (h : t.changeCard cardId action operator reason now change = .ok (.answer card)) :
    t.cards.lookup cardId = some card ∧ change card = .ok none := by
  simp only [Tables.changeCard, bind_eq_ok', getCard_eq_ok] at h
  obtain ⟨_, _, card', hc, changed, hch, h⟩ := h
  cases changed
  case none =>
    cases h
    exact ⟨hc, hch⟩
  case some => cases h

theorem unbanCard_ne_answer : t.unbanCard cardId operator reason now ≠ .ok (.answer card) := by
  intro h
  have hn := (changeCard_answer h).right
  simp only [bind_eq_ok', exists_unit, pure_eq_ok] at hn
  exact nomatch hn.right.right

theorem adminUnbindDevice_ne_answer :
    t.adminUnbindDevice cardId device operator reason now ≠ .ok (.answer card) := by
  intro h
  have hn := (changeCard_answer h).right
  simp only [bind_eq_ok', exists_unit, pure_eq_ok] at hn
  exact nomatch hn.right

theorem rekeyCard_ne_answer {hash : String → String} :
    t.rekeyCard hash cardId new operator reason now ≠ .ok (.answer card) := by
  intro h
  have hn := (changeCard_answer h).right
  simp only [bind_eq_ok', exists_unit, pure_eq_ok] at hn
  exact nomatch hn.right.right.right

theorem changeCardGroup_answer
    (h : t.changeCardGroup cardId groupId operator reason now = .ok (.answer card)) :
    t.cards.lookup cardId = some card ∧ card.groupId = groupId := by
  have ⟨hc, hn⟩ := changeCard_answer h
  simp only [bind_eq_ok', exists_unit, pure_eq_ok, ofOption_eq_ok, ite_eq_left_iff, reduceCtorEq,
    imp_false, not_not] at hn
  have ⟨_, _, _, hg⟩ := hn
  exact ⟨hc, hg⟩

theorem voidCard_answer
    (h : t.voidCardInner cardId operator reason now unactivatedOnly = .ok (.answer card)) :
    t.cards.lookup cardId = some card ∧ card.status = .voided := by
  simp only [Tables.voidCardInner, bind_eq_ok', exists_unit, getCard_eq_ok] at h
  obtain ⟨_, _, card', hc, h⟩ := h
  split at h
  case isTrue hs =>
    cases h
    exact ⟨hc, hs⟩
  case isFalse =>
    simp only [bind_eq_ok', exists_unit, pure_eq_ok] at h
    obtain ⟨_, _, h⟩ := h
    cases h

theorem unbindDevice_ne_answer : t.unbindDevice cardId device now ≠ .ok (.answer u) := by
  intro h
  simp only [Tables.unbindDevice, bind_eq_ok', exists_unit, pure_eq_ok] at h
  obtain ⟨_, _, _, _, h⟩ := h
  cases h

theorem setCardCodeHash_ne_answer : t.setCardCodeHash cardId codeHash ≠ .ok (.answer card) := by
  intro h
  simp only [Tables.setCardCodeHash, bind_eq_ok', exists_unit, pure_eq_ok] at h
  obtain ⟨_, _, _, h⟩ := h
  cases h

theorem revokeTokens_ne_answer : t.revokeTokens cardId ≠ .ok (.answer n) := by
  intro h
  simp only [Tables.revokeTokens, bind_eq_ok', pure_eq_ok] at h
  obtain ⟨_, _, h⟩ := h
  cases h

end

namespace Engine

variable [F64 F] [Host F] {e : Engine F} {io : Io} {old : Card} {l : Label F}

-- A card took its turn.
def Took (e e' : Engine F) (k : String) (turn : Turn) : Prop :=
  ∃ old new, e.tables.cards.lookup k = some old ∧ e'.tables.cards.lookup k = some new ∧
    old.lifecycle.turn turn = some new.lifecycle

theorem Took.of_posts {txn : Result (Txn F Card)} (hp : Posts e.tables op txn)
    (hone : ∀ {key turns}, op.Turns key turns → key = k ∧ turns = [turn])
    (hok : ((e.transact io txn).1.map fun _ => ()).isOk) :
    (∃ card, txn = .ok (.answer card)) ∨ Took e (e.transact io txn).2 k turn := by
  have ⟨card, hok⟩ := isOk_map.mp hok
  cases transact_posts hp hok
  case inl ha => exact .inl ⟨card, ha⟩
  case inr h =>
    have ⟨key, old, turns, ht, ho, hn, hl⟩ := h
    have ⟨hkey, hturns⟩ := hone ht
    subst hkey hturns
    exact .inr ⟨old, card, ho, hn, by simpa using hl.lifecycle⟩

theorem Took.of_replaces {txn : Result (Txn F α)} (hp : Replaces e.tables op txn)
    (hone : ∀ {key turns}, op.Turns key turns → key = k ∧ turns = [turn])
    (hok : ((e.transact io txn).1.map fun _ => ()).isOk) :
    (∃ a, txn = .ok (.answer a)) ∨ Took e (e.transact io txn).2 k turn := by
  have ⟨a, hok⟩ := isOk_map.mp hok
  cases transact_replaces hp hok
  case inl ha => exact .inl ⟨a, ha⟩
  case inr h =>
    have ⟨key, old, new, turns, ht, ho, hn, hl, _⟩ := h
    have ⟨hkey, hturns⟩ := hone ht
    subst hkey hturns
    exact .inr ⟨old, new, ho, hn, by simpa using hl.lifecycle⟩

-- An operation that succeeds makes its card take its turn, unless the card already is as asked.
theorem exec_turning (ht : op.turning = some (k, turn)) (hok : (e.outcome io op).isOk) :
    (op.IsDone e.tables ∧ (e.exec io op).tables = e.tables) ∨ Took e (e.exec io op) k turn := by
  cases op <;> simp only [Op.turning, Option.some.injEq, Prod.mk.injEq, reduceCtorEq] at ht
  all_goals
    obtain ⟨hk, hturn⟩ := ht
    subst hk hturn
    simp only [outcome, exec] at hok ⊢
  case freezeCard =>
    refine (Took.of_posts freezeCard_posts id hok).imp_left ?_
    rintro ⟨_, h⟩
    exact absurd h freezeCard_ne_answer
  case unfreezeCard =>
    refine (Took.of_posts unfreezeCard_posts id hok).imp_left ?_
    rintro ⟨_, h⟩
    exact absurd h unfreezeCard_ne_answer
  case banCard =>
    refine (Took.of_posts banCard_posts id hok).imp_left ?_
    rintro ⟨_, h⟩
    exact absurd h banCard_ne_answer
  case unbanCard =>
    refine (Took.of_posts unbanCard_posts id hok).imp_left ?_
    rintro ⟨_, h⟩
    exact absurd h unbanCard_ne_answer
  case voidCard =>
    refine (Took.of_posts voidCard_posts id hok).imp_left ?_
    rintro ⟨card, h⟩
    exact ⟨⟨card, voidCard_answer h⟩, by simp only [voidCard, h, transact]⟩
  case changeCardGroup =>
    refine (Took.of_posts changeCardGroup_posts id hok).imp_left ?_
    rintro ⟨card, h⟩
    exact ⟨⟨card, changeCardGroup_answer h⟩, by simp only [changeCardGroup, h, transact]⟩
  case adminUnbindDevice =>
    refine (Took.of_posts adminUnbindDevice_posts id hok).imp_left ?_
    rintro ⟨_, h⟩
    exact absurd h adminUnbindDevice_ne_answer
  case rekeyCard =>
    refine (Took.of_posts rekeyCard_posts id hok).imp_left ?_
    rintro ⟨_, h⟩
    exact absurd h rekeyCard_ne_answer
  case unbindDevice =>
    refine (Took.of_replaces unbindDevice_replaces id ?_).imp_left ?_
    · rwa [map_unit]
    · rintro ⟨_, h⟩
      exact absurd h unbindDevice_ne_answer
  case setCardCodeHash =>
    refine (Took.of_replaces setCardCodeHash_replaces id hok).imp_left ?_
    rintro ⟨_, h⟩
    exact absurd h setCardCodeHash_ne_answer
  case revokeTokens =>
    refine (Took.of_replaces revokeTokens_replaces id hok).imp_left ?_
    rintro ⟨_, h⟩
    exact absurd h revokeTokens_ne_answer

-- The status that an operation freezes a card from, or else the one it was frozen from before.
def frozenAfter (k : String) (e : Engine F) (l : Label F) (s : Option CardStatus) :
    Option CardStatus :=
  match l.op with
  | .freezeCard cardId ..   =>
    if cardId = k ∧ (e.outcome l.io l.op).isOk then (e.tables.cards.lookup k).map (·.status) else s
  | .unfreezeCard cardId .. => if cardId = k ∧ (e.outcome l.io l.op).isOk then none else s
  | _                       => s

-- The status that operations, one after the other, froze a card from.
def frozenAs (k : String) (e : Engine F) : List (Label F) → Option CardStatus → Option CardStatus
  | [], s      => s
  | l :: ls, s => frozenAs k (e.exec l.io l.op) ls (frozenAfter k e l s)

-- Only freezing and unfreezing changes the status that a card was frozen from.
theorem frozenFrom_kept (ht : Card.Turned ts old new) (hs : old.lifecycle.Sound)
    (hn : ∀ t ∈ ts, t ≠ .freeze ∧ t ≠ .unfreeze) : new.frozenFrom = old.frozenFrom := by
  let P (l : Lifecycle) := l.Sound ∧ l.frozenFrom = old.frozenFrom
  have h : P new.lifecycle := by
    refine Lifecycle.turns_preserves ht.lifecycle ⟨hs, rfl⟩ fun hm hp ht => ?_
    have ⟨hf, hu⟩ := hn _ hm
    refine ⟨hp.left.turn ht, ?_⟩
    rcases hp.left.turn_frozenFrom ht with ⟨h, _⟩ | ⟨h, _⟩ | ⟨_, _, h⟩
    · exact absurd h hf
    · exact absurd h hu
    · exact h.trans hp.right
  exact h.right

omit [F64 F] [Host F] in
theorem Took.lifecycle (h : Took e e' k turn) (ho : e.tables.cards.lookup k = some old)
    (hn : e'.tables.cards.lookup k = some new) :
    old.lifecycle.turn turn = some new.lifecycle := by
  have ⟨_, _, ho', hn', ht⟩ := h
  rw [ho, Option.some.injEq] at ho'
  rw [hn, Option.some.injEq] at hn'
  rwa [ho', hn']

theorem freezeCard_frozenFrom (hs : old.lifecycle.Sound)
    (hok : (e.outcome io (.freezeCard k operator reason now)).isOk)
    (ho : e.tables.cards.lookup k = some old)
    (hn : (e.exec io (.freezeCard k operator reason now)).tables.cards.lookup k = some new) :
    new.frozenFrom = some old.status := by
  cases exec_turning (show _ = some (k, .freeze) from rfl) hok
  case inl h => exact absurd h.left id
  case inr h =>
    rcases hs.turn_frozenFrom (h.lifecycle ho hn) with ⟨_, h⟩ | ⟨h, _⟩ | ⟨h, _⟩
    · exact h
    · cases h
    · exact absurd rfl h

-- An unfreeze restores what the freeze took.
theorem unfreezeCard_frozenFrom (hs : old.lifecycle.Sound)
    (hok : (e.outcome io (.unfreezeCard k operator reason now)).isOk)
    (ho : e.tables.cards.lookup k = some old)
    (hn : (e.exec io (.unfreezeCard k operator reason now)).tables.cards.lookup k = some new) :
    new.frozenFrom = none ∧ old.frozenFrom = some new.status := by
  cases exec_turning (show _ = some (k, .unfreeze) from rfl) hok
  case inl h => exact absurd h.left id
  case inr h =>
    rcases hs.turn_frozenFrom (h.lifecycle ho hn) with ⟨h, _⟩ | ⟨_, h⟩ | ⟨_, h, _⟩
    · cases h
    · exact h
    · exact absurd rfl h

theorem freezeCard_failed (h : ¬(e.outcome io (.freezeCard k operator reason now)).isOk) :
    (e.exec io (.freezeCard k operator reason now)).tables = e.tables := by
  simp only [outcome, exec, freezeCard] at h ⊢
  exact transact_failed (Commits.of_post freezeCard_posts).publishes h

theorem unfreezeCard_failed (h : ¬(e.outcome io (.unfreezeCard k operator reason now)).isOk) :
    (e.exec io (.unfreezeCard k operator reason now)).tables = e.tables := by
  simp only [outcome, exec, unfreezeCard] at h ⊢
  exact transact_failed (Commits.of_post unfreezeCard_posts).publishes h

theorem frozenAfter_eq (hs : old.lifecycle.Sound) (ho : e.tables.cards.lookup k = some old)
    (hn : (e.exec l.io l.op).tables.cards.lookup k = some new) (ht : Card.Turned ts old new)
    (hts : ∀ t ∈ ts, ∃ turns, l.op.Turns k turns ∧ t ∈ turns) :
    new.frozenFrom = frozenAfter k e l old.frozenFrom := by
  have hfailed (h : (e.exec l.io l.op).tables = e.tables) : new.frozenFrom = old.frozenFrom := by
    rw [h, ho, Option.some.injEq] at hn
    rw [hn]
  have hother (hf : ∀ {operator reason now}, l.op ≠ .freezeCard k operator reason now)
      (hu : ∀ {operator reason now}, l.op ≠ .unfreezeCard k operator reason now) :
      new.frozenFrom = old.frozenFrom := by
    refine frozenFrom_kept ht hs fun t hm => ?_
    have ⟨turns, hturns, hm⟩ := hts t hm
    refine ⟨fun h => ?_, fun h => ?_⟩
    · have ⟨_, _, _, h⟩ := hturns.freeze (h ▸ hm)
      exact hf h
    · have ⟨_, _, _, h⟩ := hturns.unfreeze (h ▸ hm)
      exact hu h
  have ⟨op, io⟩ := l
  simp only [frozenAfter] at hn hfailed hother ⊢
  split
  case h_1 cardId operator reason now =>
    split
    case isTrue h =>
      have ⟨hk, hok⟩ := h
      subst hk
      rw [ho]
      exact freezeCard_frozenFrom hs hok ho hn
    case isFalse h =>
      by_cases hk : cardId = k
      case pos => exact hfailed (freezeCard_failed fun hok => h ⟨hk, hok⟩)
      case neg => exact hother (by simp [hk]) nofun
  case h_2 cardId operator reason now =>
    split
    case isTrue h =>
      have ⟨hk, hok⟩ := h
      subst hk
      exact (unfreezeCard_frozenFrom hs hok ho hn).left
    case isFalse h =>
      by_cases hk : cardId = k
      case pos => exact hfailed (unfreezeCard_failed fun hok => h ⟨hk, hok⟩)
      case neg => exact hother nofun (by simp [hk])
  case h_3 hf hu => exact hother (hf _ _ _ _) (hu _ _ _ _)

theorem exec_sound (hk : e.tables.Keyed) (hop : l.op ≠ .reload)
    (ho : e.tables.cards.lookup k = some old) (hs : old.lifecycle.Sound) :
    ∃ new, (e.exec l.io l.op).tables.cards.lookup k = some new ∧ new.lifecycle.Sound ∧
      new.frozenFrom = frozenAfter k e l old.frozenFrom := by
  have ⟨ts, new, hn, ht, hts⟩ := exec_turned l.io hk hop ho
  exact ⟨new, hn, Lifecycle.turns_preserves ht.lifecycle hs fun _ h ht => h.turn ht,
    frozenAfter_eq hs ho hn ht hts⟩

-- In every run, cards stay sound and remember what they were frozen from.
theorem execAll_sound {ls : List (Label F)} (hk : e.tables.Keyed) (hl : ∀ l ∈ ls, l.op ≠ .reload)
    (ho : e.tables.cards.lookup k = some old) (hs : old.lifecycle.Sound) :
    (e.execAll ls).tables.Keyed ∧
    ∃ new, (e.execAll ls).tables.cards.lookup k = some new ∧ new.lifecycle.Sound ∧
      new.frozenFrom = frozenAs k e ls old.frozenFrom := by
  induction ls generalizing e old
  case nil => exact ⟨hk, old, ho, hs, rfl⟩
  case cons l ls hi =>
    have ⟨c, hc, hs', hf⟩ := exec_sound hk (hl l (.head _)) ho hs
    have hk' := exec_keyed l.io hk (hl l (.head _))
    have ⟨hk'', new, hn, hs'', hf'⟩ := hi hk' (fun l hm => hl l (.tail _ hm)) hc hs'
    exact ⟨hk'', new, hn, hs'', by rw [hf', hf]; rfl⟩

-- What an operation may make of a card.
structure Follows (e : Engine F) (l : Label F) (k : String) (old new : Card) : Prop where
  voided    : old.status = .voided → new.status = .voided
  sessions  : old.tokenVersion ≤ new.tokenVersion
  activated : old.activatedAt = none → new.activatedAt.isSome ∨ new.status = .active →
    l.op.signsIn k
  ended     : (e.outcome l.io l.op).isOk → l.op.turning = some (k, turn) → turn.endsSessions →
    ¬l.op.IsDone e.tables → old.tokenVersion < u64Max → old.tokenVersion < new.tokenVersion
  restored  : (e.outcome l.io l.op).isOk → l.op.turning = some (k, .unfreeze) →
    old.frozenFrom = some new.status
  frozen    : (e.outcome l.io l.op).isOk → l.op.turning = some (k, .unban) →
    old.frozenFrom.isSome → new.status = .frozen

theorem exec_follows (hk : e.tables.Keyed) (hop : l.op ≠ .reload)
    (ho : e.tables.cards.lookup k = some old) (hs : old.lifecycle.Sound) :
    ∃ new, (e.exec l.io l.op).tables.cards.lookup k = some new ∧ Follows e l k old new := by
  have ⟨ts, new, hn, ht, hts⟩ := exec_turned l.io hk hop ho
  have hsound : new.lifecycle.Sound :=
    Lifecycle.turns_preserves ht.lifecycle hs fun _ h ht => h.turn ht
  have htook {turn : Turn} (h : l.op.turning = some (k, turn)) (hok : (e.outcome l.io l.op).isOk)
      (hd : ¬l.op.IsDone e.tables) : old.lifecycle.turn turn = some new.lifecycle := by
    cases exec_turning h hok
    case inl h => exact absurd h.left hd
    case inr h => exact h.lifecycle ho hn
  refine ⟨new, hn, ?_⟩
  constructor
  case voided =>
    intro hv
    exact Lifecycle.turns_preserves (P := (·.status = .voided)) ht.lifecycle hv
      fun _ h ht => Lifecycle.turn_voided h ht
  case sessions =>
    let P (l : Lifecycle) := l.Sound ∧ old.tokenVersion ≤ l.tokenVersion
    have h : P new.lifecycle := Lifecycle.turns_preserves ht.lifecycle ⟨hs, le_refl _⟩
      fun _ h ht => ⟨h.left.turn ht, h.right.trans (h.left.turn_tokenVersion ht)⟩
    exact h.right
  case activated =>
    intro ha hact
    by_contra hno
    have h : new.activatedAt = none := by
      refine Lifecycle.turns_preserves (P := (·.activatedAt = none)) ht.lifecycle ha ?_
      intro l₁ t l₂ hm h ht
      rw [Lifecycle.turn_activatedAt ht fun now hn => ?_]
      · exact h
      · have ⟨turns, hturns, hm⟩ := hts t hm
        exact hno (hturns.signsIn (hn ▸ hm))
    rcases hact with hact | hact
    · simp [h] at hact
    · have := hsound.activated (.inl hact)
      simp [Card.lifecycle, h] at this
  case ended =>
    intro turn hok h he hd hm
    have hv := Lifecycle.turn_endsSessions (htook h hok hd) he
    simp only [Card.lifecycle, satAddU64] at hv
    omega
  case restored =>
    intro hok h
    have hd : ¬l.op.IsDone e.tables := fun hd => by simpa using Op.turning_of_isDone h hd
    rcases hs.turn_frozenFrom (htook h hok hd) with ⟨h, _⟩ | ⟨_, _, h⟩ | ⟨_, h, _⟩
    · cases h
    · exact h
    · exact absurd rfl h
  case frozen =>
    intro hok h hf
    have hd : ¬l.op.IsDone e.tables := fun hd => by simpa using Op.turning_of_isDone h hd
    exact Lifecycle.turn_unban (htook h hok hd) hf

end Engine

section

variable [F64 F] [Host F] {e₀ : Engine F} {ls : List (Engine.Label F)} {k : String} {c₀ : Card}

-- In every run from where a card is new, its status is sound, it remembers what it was frozen from,
-- and every operation that comes next may only make of it what follows.
theorem card_lifecycle (hk : e₀.tables.Keyed) (hl : ∀ l ∈ ls, l.op ≠ .reload)
    (h₀ : e₀.tables.cards.lookup k = some c₀) (hn : c₀.lifecycle.New) :
    ∃ c, (e₀.execAll ls).tables.cards.lookup k = some c ∧ c.lifecycle.Sound ∧
      c.frozenFrom = Engine.frozenAs k e₀ ls none ∧ ∀ l : Engine.Label F, l.op ≠ .reload →
        ∃ c', ((e₀.execAll ls).exec l.io l.op).tables.cards.lookup k = some c' ∧
          Engine.Follows (e₀.execAll ls) l k c c' := by
  have ⟨hk', c, hc, hs, hf⟩ := Engine.execAll_sound hk hl h₀ hn.sound
  refine ⟨c, hc, hs, ?_, fun l hop => Engine.exec_follows hk' hop hc hs⟩
  rw [hf, show c₀.frozenFrom = none from hn.unfrozen]

end

-- A card is frozen, and banned and unbanned while it is.
def Engine.suspension : List (Engine.Label ℚ) := [
  ⟨.freezeCard "card-1" "op" "check" 10, {}⟩,
  ⟨.banCard "card-1" "op" "abuse" 20, {}⟩,
  ⟨.unbanCard "card-1" "op" "appeal" 30, {}⟩
]

-- An unfreeze then restores what it was before all of it.
theorem card_lifecycle_suspension :
    let op : Op ℚ := .unfreezeCard "card-1" "op" "done" 40
    ∃ c, ((Engine.sample.execAll Engine.suspension).exec {} op).tables.cards.lookup "card-1" =
      some c ∧ c.status = .active := by
  intro op
  have hl : ∀ l ∈ Engine.suspension, l.op ≠ .reload := by simp [Engine.suspension]
  have ⟨c, _, _, hf, h⟩ := card_lifecycle (k := "card-1") sample_started.fresh.keyed hl rfl
    ⟨by decide, rfl, .inr ⟨rfl, rfl⟩⟩
  have ⟨c', hc', hfol⟩ := h ⟨op, {}⟩ nofun
  have hs : Engine.frozenAs "card-1" Engine.sample Engine.suspension none = some .active := by
    decide +kernel
  have hok : ((Engine.sample.execAll Engine.suspension).outcome {} op).isOk := by decide +kernel
  have hr := hfol.restored hok rfl
  rw [hf, hs, Option.some.injEq] at hr
  exact ⟨c', hc', hr.symm⟩

-- An engine with the same card, whose sessions were ended as often as is counted.
def Engine.worn : Engine ℚ := { Engine.sample with
  tables := { Engine.sample.tables with
    cards := (∅ : Table String Card).insert "card-1" { Card.sample with tokenVersion := u64Max } } }

-- Voiding a voided card succeeds and ends no sessions. Neither does the count go beyond its bound.
theorem sessions_kept :
    (let e := Engine.sample.execAll [⟨.voidCard "card-1" "op" "lost" 10 false, {}⟩]
    let op : Op ℚ := .voidCard "card-1" "op" "lost" 20 false
    Engine.sample.Started ∧ Card.sample.lifecycle.New ∧ e.outcome {} op = .ok () ∧
      ((e.exec {} op).tables.cards.lookup "card-1").map (·.tokenVersion) =
        (e.tables.cards.lookup "card-1").map (·.tokenVersion)) ∧
    (let op : Op ℚ := .freezeCard "card-1" "op" "check" 10
    Engine.worn.outcome {} op = .ok () ∧
      ((Engine.worn.exec {} op).tables.cards.lookup "card-1").map (·.tokenVersion) =
        (Engine.worn.tables.cards.lookup "card-1").map (·.tokenVersion)) :=
  ⟨⟨sample_started, ⟨by decide, rfl, .inr ⟨rfl, rfl⟩⟩, by decide +kernel, by decide +kernel⟩,
    by decide +kernel, by decide +kernel⟩

end Billing
