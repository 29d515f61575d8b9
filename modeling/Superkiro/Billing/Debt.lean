import Superkiro.Billing.Codes
import Superkiro.Billing.Reconcile

namespace Billing

open F64 Except Host AList

namespace Tables

-- What a card couldn't pay when it was charged, by the evidence.
def unpaid (t : Tables F) (cardId : String) : Int :=
  ((t.unpaidLedger.filter (·.cardId = cardId)).map (·.amountMicroCredits.val)).sum

-- There's evidence for what cards owe.
def Evidenced (t : Tables F) : Prop :=
  ∀ ⦃k c⦄, t.cards.lookup k = some c → c.outstandingDebt.val ≤ t.unpaid k

-- Cards owe no more than they did, apart from what there is new evidence for.
def Evidences (t t' : Tables F) : Prop :=
  ∀ ⦃k c⦄, t.cards.lookup k = some c → ∃ c', t'.cards.lookup k = some c' ∧
    c'.outstandingDebt.val + t.unpaid k ≤ c.outstandingDebt.val + t'.unpaid k

end Tables

theorem SameBalances.trans {cards cards' cards'' : Table String Card}
    (h : SameBalances cards cards') (h' : SameBalances cards' cards'') :
    SameBalances cards cards'' := by
  intro k c hc
  have ⟨c', hc', ht, hu⟩ := h hc
  have ⟨c'', hc'', ht', hu'⟩ := h' hc'
  exact ⟨c'', hc'', ht'.trans ht, hu'.trans hu⟩

-- Cards owe no more than they did.
def Eases (cards cards' : Table String Card) : Prop :=
  ∀ ⦃k c⦄, cards.lookup k = some c → ∃ c', cards'.lookup k = some c' ∧
    c'.outstandingDebt ≤ c.outstandingDebt

namespace Eases

variable {cards cards' : Table String Card} {card old : Card} {k : String}

theorem of_same (h : SameBalances cards cards') : Eases cards cards' := by
  intro k c hc
  have ⟨c', hc', ht, hu⟩ := h hc
  refine ⟨c', hc', ?_⟩
  rw [Card.outstandingDebt, Card.outstandingDebt, ht, hu, I64.le_def]

theorem refl : Eases cards cards := .of_same .refl

theorem trans {cards'' : Table String Card} (h : Eases cards cards') (h' : Eases cards' cards'') :
    Eases cards cards'' := by
  intro k c hc
  have ⟨c', hc', hd⟩ := h hc
  have ⟨c'', hc'', hd'⟩ := h' hc'
  exact ⟨c'', hc'', I64.le_def.mpr ((I64.le_def.mp hd').trans (I64.le_def.mp hd))⟩

theorem insert (hf : cards.lookup k = some old) (hd : card.outstandingDebt ≤ old.outstandingDebt) :
    Eases cards (cards.insert k card) := by
  intro k' c hc
  by_cases he : k' = k
  case pos =>
    subst he
    rw [hf, Option.some.injEq] at hc
    exact ⟨card, lookup_insert _, hc ▸ hd⟩
  case neg => exact ⟨c, (lookup_insert_ne he).trans hc, I64.le_def.mpr (Int.le_refl _)⟩

end Eases

namespace Card

variable {card old : Card} {given taken : I64}

-- A card that's given something, and from which no more is taken than there is, owes no more.
theorem debt_le (ht : card.creditTotal = old.creditTotal.satAdd given)
    (hu : card.creditUsed = old.creditUsed.satAdd taken) (hg : 0 ≤ given) (hn : 0 ≤ taken)
    (hused : 0 ≤ old.creditUsed) (hheld : 0 ≤ old.creditReserved)
    (hc : 0 < taken → taken ≤ old.availableCredits) :
    card.outstandingDebt ≤ old.outstandingDebt := by
  have ht := congrArg I64.val ht
  have hu := congrArg I64.val hu
  simp only [I64.le_def, I64.lt_def, availableCredits, outstandingDebt, I64.val_satAdd,
    I64.val_satSub, I64.val_max0] at *
  have := old.creditTotal.lower
  have := old.creditTotal.upper
  simp only [I64.val_zero] at *
  omega

end Card

-- Whether a change gives a card nothing negative.
def Change.Gives : Change F → Prop
  | post _ _ _ entry => 0 ≤ entry.given
  | _                => True

def Change.isDebit : Change F → Bool
  | debit .. => true
  | _        => false

section

variable [F64 F] [Host F] {t t' : Tables F} {c : Change F} {k id : String}

omit [F64 F] [Host F] in
theorem Tables.Evidences.of_eases (h : Eases t.cards t'.cards)
    (hu : t'.unpaidLedger = t.unpaidLedger) : t.Evidences t' := by
  intro k c hc
  have ⟨c', hc', hd⟩ := h hc
  have hd := I64.le_def.mp hd
  refine ⟨c', hc', ?_⟩
  rw [Tables.unpaid, Tables.unpaid, hu]
  omega

omit [F64 F] [Host F] in
theorem Tables.Evidences.refl : t.Evidences t := .of_eases .refl rfl

omit [F64 F] [Host F] in
theorem Tables.Evidences.trans {t'' : Tables F} (h : t.Evidences t') (h' : t'.Evidences t'') :
    t.Evidences t'' := by
  intro k c hc
  have ⟨c', hc', hd⟩ := h hc
  have ⟨c'', hc'', hd'⟩ := h' hc'
  exact ⟨c'', hc'', by omega⟩

omit [F64 F] [Host F] in
theorem Tables.Evidences.evidenced (h : t.Evidences t') (hm : ∀ {k}, k ∈ t'.cards → k ∈ t.cards)
    (he : t.Evidenced) : t'.Evidenced := by
  intro k c hc
  have ⟨old, ho⟩ := mem_iff_lookup.mp (hm (mem_of_lookup hc))
  have ⟨c', hc', hd⟩ := h ho
  rw [hc, Option.some.injEq] at hc'
  subst hc'
  have := he ho
  omega

-- Only a debit leaves a card owing more.
theorem Change.Step.eases (h : Step t c t') (ha : t.Accounted) (hg : c.Gives)
    (hd : c.isDebit = false) :
    Eases t.cards t'.cards ∧ t'.unpaidLedger = t.unpaidLedger := by
  cases h
  case debit => cases hd
  case hold h => exact ⟨.of_same (.insert h.found rfl rfl), rfl⟩
  case extend card reserved r h =>
    have hid : card.id = r.cardId := ha.keyed.cards h.found
    have hf : t.cards.lookup card.id = some card := by rw [hid]; exact h.found
    exact ⟨.of_same (.insert hf rfl rfl), rfl⟩
  case pend => exact ⟨.of_same .refl, rfl⟩
  case release => exact ⟨.of_same (.update (fun _ => rfl) fun _ => rfl), rfl⟩
  case clean => exact ⟨.of_same .reclaim, rfl⟩
  case post key card entry h =>
    have ⟨old, hf, _, _, ht, hu, _⟩ := h.found
    have hused : 0 ≤ old.creditUsed := I64.le_def.mpr (ha.used hf)
    have hheld : 0 ≤ old.creditReserved := by
      rw [I64.le_def, ha.reserved hf]
      exact ha.held_nonneg key
    have hn : 0 ≤ entry.taken := I64.le_def.mpr entry.taken_nonneg
    exact ⟨.insert hf (Card.debt_le ht hu hg hn hused hheld fun ht => h.covered ht hf), rfl⟩
  case replace h =>
    have ⟨old, hf, hs⟩ := h.found
    exact ⟨.of_same (.insert hf hs.total hs.used), rfl⟩
  case consume => exact ⟨.of_same .refl, rfl⟩
  case use => exact ⟨.of_same .refl, rfl⟩
  case charge card entry r h _ =>
    have ⟨old, hf, he, hu⟩ := h.found
    have hid := ha.keyed.cards hf
    have hid : card.id = r.cardId := by rw [he, ← hid]
    have hused : 0 ≤ old.creditUsed := I64.le_def.mpr (ha.used hf)
    have hheld : 0 ≤ old.creditReserved := by
      rw [I64.le_def, ha.reserved hf]
      exact ha.held_nonneg r.cardId
    have ht : card.creditTotal = old.creditTotal.satAdd 0 := by rw [he, I64.satAdd_zero]
    have hsat : card.creditUsed = old.creditUsed.satAdd entry.creditsCharged := by
      have := card.creditUsed.lower
      have := card.creditUsed.upper
      rw [I64.eq_iff, I64.val_satAdd]
      omega
    have hc := Card.debt_le ht hsat (I64.le_def.mpr (Int.le_refl 0)) (I64.le_def.mpr h.nonneg)
      hused hheld fun _ => h.covered hf
    exact ⟨.insert (hid ▸ hf) hc, rfl⟩
  case archive => exact ⟨.of_same .refl, rfl⟩
  case templates => exact ⟨.of_same .refl, rfl⟩
  case publish h =>
    rw [h.configured]
    exact ⟨.of_same .refl, rfl⟩
  case recover =>
    refine ⟨.of_same (.mapValues (fun _ _ => rfl) fun _ _ => rfl), ?_⟩
    simp only [Tables.recovered, Tables.restoreTemplateInvocations]

omit [F64 F] [Host F] in
theorem unpaid_append {u : UnpaidCharge} (hu : t'.unpaidLedger = t.unpaidLedger ++ [u]) :
    t'.unpaid k = t.unpaid k + if u.cardId = k then u.amountMicroCredits.val else 0 := by
  simp only [Tables.unpaid, hu, List.filter_append, List.map_append, List.sum_append]
  by_cases h : u.cardId = k <;> simp [h]

omit [Host F] in
-- What a debit adds to a card's debt is what it adds to the evidence.
theorem Debitable.evidences {r : CreditReservation F} {card : Card} {entry : LedgerEntry F}
    (h : Debitable t id r card entry) (hk : t.Keyed) : t.Evidences (t.debit id r card entry) := by
  intro k c hc
  have hid : card.id = entry.cardId := (hk.cards h.found).trans h.owner.symm
  have hf : t.cards.lookup entry.cardId = some card := h.owner ▸ h.found
  let charged := { card with
    creditUsed     := card.creditUsed.satAdd entry.creditsCharged
    creditReserved := card.creditReserved.satSub r.reservedMicroCredits }
  have hge : card.outstandingDebt.val ≤ charged.outstandingDebt.val := by
    have := h.charge
    have := card.creditUsed.upper
    simp only [I64.le_def, charged, Card.outstandingDebt, I64.val_max0, I64.val_satSub,
      I64.val_satAdd, I64.val_zero] at *
    omega
  have hadd : (charged.outstandingDebt.satSub card.outstandingDebt).val =
      charged.outstandingDebt.val - card.outstandingDebt.val := by
    have : 0 ≤ card.outstandingDebt.val := by
      rw [Card.outstandingDebt, I64.val_max0]
      omega
    have := charged.outstandingDebt.upper
    rw [I64.val_satSub]
    omega
  have hu : (t.debit id r card entry).unpaid k =
      t.unpaid k + if card.id = k then charged.outstandingDebt.val - card.outstandingDebt.val
        else 0 := by
    by_cases hpos : 0 < charged.outstandingDebt.satSub card.outstandingDebt
    case pos => rw [unpaid_append (if_pos hpos), hadd]
    case neg =>
      have hz : charged.outstandingDebt.val - card.outstandingDebt.val = 0 := by
        have := mt I64.lt_def.mpr hpos
        rw [hadd, I64.val_zero] at this
        omega
      rw [hz, ite_self, Int.add_zero]
      simp only [Tables.unpaid, Tables.debit]
      rw [if_neg hpos]
  by_cases he : k = entry.cardId
  case pos =>
    subst he
    rw [hf, Option.some.injEq] at hc
    subst hc
    refine ⟨charged, lookup_insert _, ?_⟩
    rw [hu, if_pos hid]
    omega
  case neg =>
    refine ⟨c, (lookup_insert_ne he).trans hc, ?_⟩
    rw [hu, if_neg (fun h => he (h.symm.trans hid))]
    omega

theorem Change.Step.evidences (h : Step t c t') (ha : t.Accounted) (hg : c.Gives) :
    t.Evidences t' := by
  cases hd : c.isDebit
  case false =>
    have ⟨he, hu⟩ := h.eases ha hg hd
    exact .of_eases he hu
  case true =>
    cases h
    case debit h => exact h.evidences ha.keyed
    all_goals cases hd

omit [F64 F] [Host F] in
-- A code that has something to give pays off debt.
theorem redeem_eases {card : Card} {code : TopupCode} (ha : t.Accounted)
    (hf : t.cards.lookup id = some card) (hc : 0 ≤ code.creditAmount) :
    Eases t.cards (t.redeem k code id card now operator).cards := by
  have hused : 0 ≤ card.creditUsed := I64.le_def.mpr (ha.used hf)
  have hheld : 0 ≤ card.creditReserved := by
    rw [I64.le_def, ha.reserved hf]
    exact ha.held_nonneg id
  let card' := Tables.toppedUp (code.redeemed id now) card now
  have ht : card'.creditTotal = card.creditTotal.satAdd code.creditAmount := rfl
  have hu : card'.creditUsed = card.creditUsed.satAdd 0 := (I64.satAdd_zero _).symm
  have hn : ¬(0 : I64) < 0 := mt I64.lt_def.mp (Int.lt_irrefl 0)
  exact .insert hf (Card.debt_le ht hu hc (I64.le_def.mpr (Int.le_refl 0)) hused hheld
    fun h => absurd h hn)

end

-- Operations that debit bills.
def Op.settles : Op F → Bool
  | .settle .. | .retryPendingSettlement .. => true
  | _                                       => false

section

variable {t : Tables F} {c : Change F} {op : Op F}

theorem Op.Makes.gives (h : op.Makes t c) (hr : op.redeems = false) : c.Gives := by
  cases h with
  | post hg => exact hg hr
  | _      => trivial

theorem Op.Makes.undebited (h : op.Makes t c) (hs : op.settles = false) : c.isDebit = false := by
  cases h
  case settle => cases hs
  case retry => cases hs
  all_goals rfl

end

namespace Engine

variable [F64 F] [Host F] {e e' : Engine F} {op : Op F} {io : Io}

-- The code an operation redeems, if any, has something to give.
def Credits (e : Engine F) (op : Op F) : Prop :=
  ∀ ⦃cardId code now operator k c⦄, op = .redeemTopup cardId code now operator →
    e.tables.openCode (hashCardCode F) code = some ⟨k, c⟩ → 0 ≤ c.creditAmount

omit [F64 F] in
theorem Credits.of_other (h : op.redeems = false) : e.Credits op := by
  intro _ _ _ _ _ _ he
  rw [he] at h
  cases h

theorem exec_redeem (io : Io) (ha : e.tables.Accounted) (hc : e.Credits op) (hr : op.redeems) :
    Eases e.tables.cards (e.exec io op).tables.cards ∧
      (e.exec io op).tables.unpaidLedger = e.tables.unpaidLedger := by
  cases op
  case redeemTopup cardId code now operator =>
    have h : Redemption e cardId code now operator _ (e.redeemTopup io ..).2 :=
      redeemTopup_ends ha.keyed
    rw [Engine.exec]
    generalize (e.redeemTopup io cardId code now operator).1 = answer at h
    generalize (e.redeemTopup io cardId code now operator).2 = e' at h ⊢
    cases h
    case failed hu => exact ⟨hu.tables ▸ .refl, hu.tables ▸ rfl⟩
    case redeemed hf hl ht _ =>
      rw [ht]
      exact ⟨redeem_eases ha hl (hc rfl hf), rfl⟩
  all_goals cases hr

omit [F64 F] [Host F] in
theorem source_redeem (hr : op.redeems) : e.source op = e.tables := by
  cases op
  case redeemTopup => rfl
  all_goals cases hr

theorem exec_mem_cards {k : String} (hk : (e.source op).Keyed) :
    k ∈ (e.exec io op).tables.cards ↔ k ∈ (e.source op).cards := by
  have ⟨⟨cs, hs, _⟩, _⟩ := exec_effect io op hk
  let I (t : Tables F) := t.Keyed ∧ (k ∈ t.cards ↔ k ∈ (e.source op).cards)
  have h : I (e.exec io op).tables :=
    hs.preserves (fun h hs => ⟨hs.keyed h.left, (hs.mem_cards h.left).trans h.right⟩) ⟨hk, Iff.rfl⟩
  exact h.right

theorem exec_evidences (ha : (e.source op).Accounted) (hc : e.Credits op) :
    (e.source op).Evidences (e.exec io op).tables := by
  cases hr : op.redeems
  case true =>
    rw [source_redeem hr] at ha ⊢
    have ⟨he, hu⟩ := exec_redeem io ha hc hr
    exact .of_eases he hu
  case false =>
    have ⟨⟨cs, hs, hm⟩, _⟩ := exec_effect io op ha.keyed
    let I (t : Tables F) := t.Accounted ∧ (e.source op).Evidences t
    have h : I (e.exec io op).tables := by
      refine hs.preserves_mem (fun hl ⟨ha, he⟩ hs => ?_) ⟨ha, .refl⟩
      exact ⟨hs.accounted ha, he.trans (hs.evidences ha ((hm _ hl).gives hr))⟩
    exact h.right

theorem exec_eases (io : Io) (ha : (e.source op).Accounted) (hc : e.Credits op) (hn : op.settles = false) :
    Eases (e.source op).cards (e.exec io op).tables.cards := by
  cases hr : op.redeems
  case true =>
    rw [source_redeem hr] at ha ⊢
    exact (exec_redeem io ha hc hr).left
  case false =>
    have ⟨⟨cs, hs, hm⟩, _⟩ := exec_effect io op ha.keyed
    let I (t : Tables F) := t.Accounted ∧ Eases (e.source op).cards t.cards
    have h : I (e.exec io op).tables := by
      refine hs.preserves_mem (fun hl ⟨ha, he⟩ hs => ?_) ⟨ha, .refl⟩
      have hm := hm _ hl
      exact ⟨hs.accounted ha, he.trans (hs.eases ha (hm.gives hr) (hm.undebited hn)).left⟩
    exact h.right

omit [F64 F] in
theorem commit_unsaved (hp : ¬e.persistent) {pub : Tables F → Tables F} :
    (e.commit io t pub).2.disk = e.disk := by
  simp only [commit]
  split
  case h_1 => rfl
  case h_2 =>
    split
    case isTrue h => exact absurd h hp
    case isFalse => rfl

omit [F64 F] in
theorem transact_unsaved (hp : ¬e.persistent) {txn : Result (Txn F α)} :
    (e.transact io txn).2.disk = e.disk := by
  cases txn
  case error => rfl
  case ok txn =>
    cases txn
    case answer => rfl
    case write c pub a =>
      have h : (e.commit io c pub).2.disk = _ := commit_unsaved hp
      simp only [transact]
      generalize e.commit io c pub = r at h
      obtain ⟨_ | _, e'⟩ := r <;> exact h

theorem settle_unsaved (hp : ¬e.persistent) {id : String} :
    (e.settle io id tokens exposed provider target now).2.disk = e.disk := by
  have h : Settling e io id (e.settle io id tokens exposed provider target now).1 _ := settle_cases
  generalize (e.settle io id tokens exposed provider target now).1 = r at h
  generalize (e.settle io id tokens exposed provider target now).2 = e' at h ⊢
  cases h
  case refused => rfl
  case debited hc => exact hc.kept hp
  case failed hu => exact hu.disk
  case pending hc => exact hc.kept hp
  case unsaved hu => exact hu.disk

-- An engine that isn't persistent saves nothing.
theorem exec_unsaved (hp : ¬e.persistent) : (e.exec io op).disk = e.disk := by
  cases op <;> simp only [exec, extendReservation, retryPendingSettlement, chargeResponseTemplate,
    publishResponseTemplates, freezeCard, unfreezeCard, banCard, unbanCard, voidCard,
    changeCardGroup, extendValidity, redeemTopup, renewWithCard, upgradeCard,
    publishCommercialConfig, activateCard, activateCardWithDevice, bindDevice, unbindDevice,
    adminUnbindDevice, resetRebinds, rekeyCard, setCardCodeHash, revokeTokens, consumeRefreshToken,
    rotateRefresh, setCardArchived, transact_unsaved hp]
  case reserve => exact (reserve_disk e).left
  case settle => exact settle_unsaved hp
  case release => exact (release_disk e).left
  case runJanitor now =>
    have h : (e.transact io (e.tables.runJanitor e.activeReservations now)).2.disk = _ :=
      transact_unsaved hp
    simp only [runJanitor]
    split
    case h_1 he | h_2 he =>
      rw [he] at h
      exact h
  case adjustCardBalance a =>
    have h : (e.transact io (e.tables.adjustCardBalance (parseJson F) e.compensations e.archives
      a)).2.disk = _ := transact_unsaved hp
    simp only [adjustCardBalance]
    split
    case h_1 he =>
      rw [he] at h
      exact h
    case h_2 => exact h
  case archiveLedger =>
    simp only [archiveLedger]
    split
    case h_1 =>
      refine (transact_unsaved ?_).trans rfl
      exact hp
    case h_2 => rfl
    case h_3 => rfl
  case beginResponseTemplateWait =>
    simp only [beginResponseTemplateWait]
    split <;> rfl
  case dropWaitSlot | restart => rfl
  case reload =>
    simp only [reload]
    split <;> rfl

-- A card on disk either owes nothing or is as it is in memory.
def Mirrors (e : Engine F) : Prop :=
  ∀ ⦃s k c⦄, e.disk = some s → s.tables.cards.lookup k = some c → c.outstandingDebt.val = 0 ∨
    e.persistent ∧ ∃ c', e.tables.cards.lookup k = some c' ∧ c'.outstandingDebt = c.outstandingDebt

omit [F64 F] [Host F] in
theorem Mirrors.of_same (h : e.Mirrors) (hd : e'.disk = e.disk)
    (hp : e'.persistent = e.persistent) (hs : SameBalances e.tables.cards e'.tables.cards) :
    e'.Mirrors := by
  intro s k c hs' hc
  refine (h (hd ▸ hs') hc).imp_right fun ⟨hper, c', hc', he⟩ => ⟨hp ▸ hper, ?_⟩
  have ⟨c'', hc'', ht, hu⟩ := hs hc'
  refine ⟨c'', hc'', ?_⟩
  rw [Card.outstandingDebt, ht, hu]
  exact he

omit [F64 F] [Host F] in
theorem Mirrors.of_saved (hp : e.persistent) (hd : e.disk = some (e'.snapshotOf io e.tables)) :
    e.Mirrors := by
  intro s k c hs hc
  rw [hd, Option.some.injEq] at hs
  subst hs
  exact .inr ⟨hp, c, hc, rfl⟩

-- Taking and returning holds changes no balance.
theorem hold_same (hk : e.tables.Keyed) (hop : op.isHold) :
    SameBalances e.tables.cards (e.exec io op).tables.cards := by
  have hsrc : e.source op = e.tables := by
    cases op <;> first | rfl | cases hop
  have ⟨⟨cs, hs, hm⟩, _⟩ := exec_effect io op (hsrc ▸ hk)
  rw [hsrc] at hs hm
  let I (t : Tables F) := SameBalances e.tables.cards t.cards
  have h : I (e.exec io op).tables := by
    refine hs.preserves_mem (fun hl hI hst => ?_) SameBalances.refl
    have hm := hm _ hl
    cases op
    case reserve =>
      cases hm with
      | reserve =>
        cases hst
        case hold h => exact hI.trans (.insert h.found rfl rfl)
      | post _ _ ht => exact ht.elim
      | replace ht => exact ht.elim
    case release =>
      cases hm with
      | release =>
        cases hst
        exact hI.trans (.update (fun _ => rfl) fun _ => rfl)
      | post _ _ ht => exact ht.elim
      | replace ht => exact ht.elim
    all_goals cases hop
  exact h

theorem Mirrors.exec (h : e.Mirrors) (hk : e.tables.Keyed) : (e.exec io op).Mirrors := by
  have hper : (e.exec io op).persistent = e.persistent := exec_persistent
  by_cases hp : e.persistent
  case neg =>
    intro s k c hs hc
    rw [exec_unsaved hp] at hs
    exact .inl ((h hs hc).resolve_right fun hr => hp hr.left)
  case pos =>
    by_cases hop : op.isCommitting
    case pos =>
      have h' : e.Agrees io (e.outcome io op) (e.exec io op) ∨ _ := exec_agrees hp hk hop
      cases h'
      case inl ha =>
        generalize e.outcome io op = r at ha
        cases ha
        case unchanged hu => exact h.of_same hu.disk hper (hu.tables ▸ SameBalances.refl)
        case saved hs => exact .of_saved (hper.trans hp) hs
      case inr ha =>
        obtain ⟨_, _, _, _, _, _, _, _, hl⟩ := ha
        obtain ⟨p, ht⟩ := hl.tables
        cases hl.disk
        case inl hd => exact h.of_same hd hper (by rw [ht]; exact SameBalances.refl)
        case inr hd => exact .of_saved (hper.trans hp) hd
    case neg =>
      cases op
      case reserve => exact h.of_same (hold_disk rfl).left hper (hold_same hk rfl)
      case release => exact h.of_same (hold_disk rfl).left hper (hold_same hk rfl)
      case beginResponseTemplateWait =>
        refine h.of_same ?_ hper ?_
        all_goals simp only [Engine.exec, beginResponseTemplateWait]
        · split <;> rfl
        · split <;> exact SameBalances.refl
      case dropWaitSlot => exact h.of_same rfl hper .refl
      case protect => exact h.of_same rfl hper .refl
      case restart => exact h.of_same rfl hper (.mapValues (fun _ _ => rfl) fun _ _ => rfl)
      case reload =>
        intro s k c hs hc
        have hd : (e.exec io .reload).disk = e.disk := by
          simp only [Engine.exec, Engine.reload]
          split <;> rfl
        rw [hd] at hs
        right
        refine ⟨hper.trans hp, ?_⟩
        simp only [Engine.exec, Engine.reload, hs]
        have hm : SameBalances s.tables.cards s.tables.recovered.cards :=
          .mapValues (fun _ _ => rfl) fun _ _ => rfl
        obtain ⟨c', hc', ht, hu⟩ := hm hc
        exact ⟨c', hc', by rw [Card.outstandingDebt, ht, hu]; rfl⟩
      all_goals exact absurd rfl hop

-- What's kept of what cards owe.
structure Owed (e : Engine F) : Prop where
  accounted : e.Invariant Tables.Accounted
  evidenced : e.Invariant Tables.Evidenced
  mirrors   : e.Mirrors

theorem Owed.exec (h : e.Owed) (hc : e.Credits op) : (e.exec io op).Owed := by
  have ha : (e.source op).Accounted := h.accounted.source
  have hl : (e.exec io op).tables.Evidenced :=
    (exec_evidences ha hc).evidenced (exec_mem_cards ha.keyed).mp h.evidenced.source
  have ⟨_, hd⟩ := exec_effect io op ha.keyed
  refine ⟨h.accounted.exec (fun h => h.keyed) fun _ h hs => hs.accounted h, ⟨hl, fun {s} hs => ?_⟩,
    h.mirrors.exec h.accounted.live.keyed⟩
  cases hd
  case inl hd => exact h.evidenced.saved (hd ▸ hs)
  case inr hd =>
    have ⟨s', hs', ht, _⟩ := hd
    rw [hs', Option.some.injEq] at hs
    rw [← hs, ht]
    exact hl

omit [F64 F] [Host F] in
theorem debt_nonneg (c : Card) : 0 ≤ c.outstandingDebt.val := by
  rw [Card.outstandingDebt, I64.val_max0]
  omega

-- Only a settlement leaves a card owing more.
theorem Owed.settles {k : String} {c c' : Card} (h : e.Owed) (hcr : e.Credits op)
    (hc : e.tables.cards.lookup k = some c) (hc' : (e.exec io op).tables.cards.lookup k = some c')
    (hlt : c.outstandingDebt < c'.outstandingDebt) : op.settles := by
  cases hs : op.settles
  case true => rfl
  case false =>
    have hlt := I64.lt_def.mp hlt
    have ha : (e.source op).Accounted := h.accounted.source
    have hm : k ∈ (e.exec io op).tables.cards := mem_of_lookup hc'
    obtain ⟨old, ho⟩ := mem_iff_lookup.mp ((exec_mem_cards ha.keyed).mp hm)
    obtain ⟨new, hn, hle⟩ := exec_eases io ha hcr hs ho
    rw [hc', Option.some.injEq] at hn
    subst hn
    have hle := I64.le_def.mp hle
    have hold : old.outstandingDebt.val ≤ c.outstandingDebt.val := by
      have := debt_nonneg c
      cases op
      case reload =>
        simp only [Engine.source] at ho
        cases hd : e.disk
        case none =>
          rw [hd, Option.map_none, Option.getD_none, hc, Option.some.injEq] at ho
          rw [ho]
        case some s =>
          rw [hd] at ho
          cases h.mirrors hd ho
          case inl hz => omega
          case inr hr =>
            obtain ⟨_, c'', hc'', he⟩ := hr
            rw [hc, Option.some.injEq] at hc''
            rw [← he, hc'']
      all_goals
        rw [source_eq (by rintro ⟨⟩), hc, Option.some.injEq] at ho
        rw [ho]
    omega

omit [F64 F] [Host F] in
theorem Started.owed (h : e.Started) (hu : e.tables.unpaidLedger = [])
    (hs : ∀ {s}, e.disk = some s → s.tables.unpaidLedger = []) : e.Owed := by
  have hz {t : Tables F} (ht : t.Fresh) {k c} (hc : t.cards.lookup k = some c) :
      c.outstandingDebt.val = 0 := by
    have := ht.nonneg hc
    rw [Card.outstandingDebt, ht.unused hc, I64.val_max0, I64.val_satSub, I64.val_zero]
    omega
  have he {t : Tables F} (ht : t.Fresh) (hu : t.unpaidLedger = []) : t.Evidenced := by
    intro k c hc
    rw [hz ht hc, Tables.unpaid, hu]
    exact Int.le_refl 0
  exact ⟨h.invariant.mono Tables.Fresh.accounted, ⟨he h.fresh hu, fun hd => he (h.saved hd) (hs hd)⟩,
    fun _ _ _ hd hc => .inl (hz (h.saved hd) hc)⟩

end Engine

section

variable [F64 F] [Host F] {e₀ e : Engine F} {ls : List (Engine.Label F)}

-- In a run that redeems no code of a negative amount, there's evidence for what every card owes, and
-- only settlements leave a card owing more.
theorem debt_has_evidence
    (run : Run (fun e l e' => e.Credits l.op ∧ Engine.Step e l e') e₀ ls e) (h₀ : e₀.Started)
    (hu : e₀.tables.unpaidLedger = [])
    (hs : ∀ {s}, e₀.disk = some s → s.tables.unpaidLedger = []) :
    (∀ {k c}, e.tables.cards.lookup k = some c →
      c.outstandingDebt.val ≤ e.tables.unpaid c.id) ∧
    ∀ {io op k c c'}, e.Credits op → e.tables.cards.lookup k = some c →
      (e.exec io op).tables.cards.lookup k = some c' → c.outstandingDebt < c'.outstandingDebt →
      op.settles := by
  have h : e.Owed := run.preserves_of
    (fun h hc hs => by rw [hs]; exact h.exec hc) (h₀.owed hu hs)
  refine ⟨fun {k c} hc => ?_, h.settles⟩
  rw [h.accounted.live.keyed.cards hc]
  exact h.evidenced.live hc

end

-- An engine with one card and a code that takes fifty credits from what it was given.
def Engine.negativeCode : Engine ℚ := { Engine.sample with
  tables := { Engine.sample.tables with
    topupCodes := (∅ : Table String TopupCode).insert "code-1" {
      id := "code-1", codeHash := "hash:code", creditAmount := .sat (-50000000),
      durationExtensionSecs := 0, createdAt := 0 } } }

def BalanceAdjustment.deduction : BalanceAdjustment where
  cardId            := "card-1"
  deltaMicroCredits := .sat (-80000000)
  operatorId        := "admin"
  reason            := "refund"
  nowSecs           := 10

-- A bill of more than a card has left.
def Engine.overdrawing : List (Engine.Label ℚ) := [
  ⟨.reserve "card-1" "inv-1" .sample 10 100, {}⟩,
  ⟨.adjustCardBalance .deduction, {}⟩,
  ⟨.settle "inv-1" { outputTokens := 10000000 } "model" "provider" "target" 20, {}⟩]

theorem debt_has_evidence_overdrawn :
    let e := Engine.sample.execAll Engine.overdrawing
    ∀ c, e.tables.cards.lookup "card-1" = some c →
      0 < c.outstandingDebt.val ∧ c.outstandingDebt.val ≤ e.tables.unpaid c.id := by
  intro e c hc
  have hrun : Run (fun e l e' => e.Credits l.op ∧ Engine.Step e l e') Engine.sample
      Engine.overdrawing e :=
    .cons ⟨.of_other rfl, rfl⟩ (.cons ⟨.of_other rfl, rfl⟩ (.cons ⟨.of_other rfl, rfl⟩ .nil))
  have ⟨h, _⟩ := debt_has_evidence hrun sample_started rfl fun hd => by simp [Engine.sample] at hd
  have hd : (e.tables.cards.lookup "card-1").any (0 < ·.outstandingDebt.val) := by decide +kernel
  rw [hc] at hd
  exact ⟨of_decide_eq_true hd, h hc⟩

theorem negativeCode_started : Engine.negativeCode.Started where
  fresh := {
    keyed        := ⟨sample_started.fresh.keyed.cards, sample_started.fresh.keyed.reservations,
      fun k c h => by
        cases lookup_insert_iff.mp h
        case inl h => rw [← h.right, h.left]
        case inr h => simp at h⟩
    unused       := sample_started.fresh.unused
    unreserved   := sample_started.fresh.unreserved
    issued       := sample_started.fresh.issued
    nonneg       := sample_started.fresh.nonneg
    reservations := rfl
    pending      := rfl
    ledger       := rfl
    receipts     := rfl
    archives     := rfl
    archived     := rfl
    adjustments  := rfl
    invocations  := rfl
  }
  same h  := by simp [Engine.negativeCode, Engine.sample] at h
  saved h := by simp [Engine.negativeCode, Engine.sample] at h

-- A code of a negative amount leaves a card in debt, without a settlement or evidence.
theorem debt_without_evidence : ¬∀ (e₀ e : Engine ℚ) ls, Run Engine.Step e₀ ls e → e₀.Started →
    e₀.tables.unpaidLedger = [] → ∀ k c, e.tables.cards.lookup k = some c →
      c.outstandingDebt.val ≤ e.tables.unpaid c.id := by
  intro h
  let ls : List (Engine.Label ℚ) := [
    ⟨.adjustCardBalance .deduction, {}⟩, ⟨.redeemTopup "card-1" "code" 20 "portal", {}⟩]
  have h := h _ _ ls (Engine.run_execAll Engine.negativeCode ls) negativeCode_started rfl "card-1"
  have hc : (Engine.negativeCode.execAll ls).tables.cards.lookup "card-1" =
      some { Card.sample with creditTotal := .sat 50000000, creditUsed := .sat 80000000 } := by
    decide +kernel
  have hu : (Engine.negativeCode.execAll ls).tables.unpaid "card-1" = 0 := by decide +kernel
  have h := h _ hc
  change (30000000 : Int) ≤ (Engine.negativeCode.execAll ls).tables.unpaid "card-1" at h
  rw [hu] at h
  exact absurd h (by decide)

end Billing
