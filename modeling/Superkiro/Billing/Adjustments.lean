import Superkiro.Billing.Effects

namespace Billing

open F64 Except Host

theorem mem_pushNew {names : List String} : x ∈ pushNew names name ↔ x ∈ names ∨ x = name := by
  unfold pushNew
  split
  case isTrue h =>
    constructor
    case mp => exact .inl
    case mpr =>
      intro hx
      cases hx
      case inl hx => exact hx
      case inr hx => simpa [hx] using h
  case isFalse => simp

theorem mem_distinct {xs : List String} : x ∈ xs.foldl pushNew ys ↔ x ∈ ys ∨ x ∈ xs := by
  induction xs generalizing ys
  case nil => simp
  case cons hi => simp [hi, mem_pushNew, or_assoc]

theorem nodup_distinct {xs : List String} (h : ys.Nodup) : (xs.foldl pushNew ys).Nodup := by
  induction xs generalizing ys
  case nil => exact h
  case cons x xs hi =>
    refine hi ?_
    unfold pushNew
    split
    case isTrue => exact h
    case isFalse hx =>
      have hx : x ∉ ys := by simpa using hx
      simp only [List.nodup_append, h, List.nodup_singleton, List.mem_singleton, true_and]
      rintro y hy _ rfl rfl
      exact hx hy

namespace CardUpgrade

variable (u v : CardUpgrade)

-- What is checked of an upgrade whatever has happened before.
structure Valid : Prop where
  operator : (Text.trim u.operatorId).isEmpty = false
  reason   : (Text.trim u.reason).isEmpty = false
  credits  : 0 ≤ u.creditsDelta
  cash     : 0 ≤ u.cashMicroCny

-- An upgrade that asks for the same as one that moved its card to a group, which it may leave open.
structure Same (groupId : String) : Prop where
  card     : v.cardId = u.cardId
  plan     : v.planId = u.planId
  credits  : v.creditsDelta = u.creditsDelta
  cash     : v.cashMicroCny = u.cashMicroCny
  days     : v.extendDays = u.extendDays
  operator : Text.trim v.operatorId = Text.trim u.operatorId
  reason   : Text.trim v.reason = Text.trim u.reason
  group    : ∀ g ∈ v.groupId, g = groupId

-- Whether an entry already records what an upgrade asks for.
def IsReplay (parse : String → Option Json) (e : LedgerEntry F) : Prop :=
  isSameUpgrade parse e u (Text.trim u.operatorId) (Text.trim u.reason)

variable [F64 F] (t : Tables F)

-- The group an upgrade moves its card to.
def targetGroup (plan : Plan F) : String := u.groupId.getD plan.defaultGroupId

def snapshot (plan : Plan F) : IssuedPlan := { plan.snapshot with paidMicroCny := some u.cashMicroCny }

-- The entry that an upgrade of a card is recorded as.
def entry (plan : Plan F) (card extended : Card) (extension : List (String × Json)) :
    LedgerEntry F :=
  upgradeEntry t.ledger.length u (Text.trim u.operatorId) (Text.trim u.reason)
    (upgradeDetail u plan (u.targetGroup plan) card extended extension (u.snapshot plan))

-- The ways an upgrade goes through.
inductive Goes (parse : String → Option Json) : Txn F Card → Prop
  | replay {card : Card} {e : LedgerEntry F} :
    u.idempotencyKey = some key → t.adjustmentUnder key = some e → u.IsReplay parse e →
    t.cards.lookup u.cardId = some card → Goes parse (.answer card)
  | upgrade {card : Card} {plan : Plan F} :
    u.idempotencyKey.bind t.adjustmentUnder = none → t.cards.lookup u.cardId = some card →
    t.planCatalog.find? (·.id = u.planId) = some plan →
    cardExtension u card = .ok (extended, extension) →
    Goes parse (t.writeCard u.cardId (extended.upgraded u (u.targetGroup plan) (u.snapshot plan))
      (u.entry t plan card extended extension))

end CardUpgrade

namespace BalanceAdjustment

variable (a b : BalanceAdjustment)

-- The requests an adjustment names, each once.
def distinct : List String := a.requests.foldl pushNew []

def resolvedKind : AdjustmentKind :=
  a.kind.getD (.defaultFor a.deltaMicroCredits !a.distinct.isEmpty)

-- What is checked of an adjustment whatever has happened before.
structure Valid : Prop where
  operator : (Text.trim a.operatorId).isEmpty = false
  reason   : (Text.trim a.reason).isEmpty = false
  amount   : a.deltaMicroCredits ≠ 0
  cash     : a.resolvedKind.cashProblem a.cashMicroCny = none

-- Adjustments that ask for the same.
structure Same : Prop where
  card     : b.cardId = a.cardId
  amount   : b.deltaMicroCredits = a.deltaMicroCredits
  operator : Text.trim b.operatorId = Text.trim a.operatorId
  reason   : Text.trim b.reason = Text.trim a.reason
  requests : ∀ id, id ∈ b.requests ↔ id ∈ a.requests
  kind     : b.resolvedKind = a.resolvedKind
  cash     : b.cashMicroCny = a.cashMicroCny

variable (t : Tables F) (archives : List (List (LedgerEntry F)))

-- Where the requests were charged.
def charged : List (Option ChargedRequest) := a.distinct.map (t.chargedRequest archives)

-- The entry that an adjustment is recorded as.
def entry : LedgerEntry F :=
  adjustmentEntry a (a.idempotencyKey.getD (eventId "adj" a.cardId a.nowSecs t.ledger.length))
    (Text.trim a.operatorId) (Text.trim a.reason)
    (adjustmentDetail a.resolvedKind a.cashMicroCny a.distinct
      ((a.charged t archives).map fun f => (f.map (·.credits)).getD 0))

-- Whether an entry already records what an adjustment asks for.
def IsReplay (parse : String → Option Json) (e : LedgerEntry F) : Prop :=
  isSameAdjustment parse e a a.distinct (Text.trim a.operatorId) (Text.trim a.reason)
    a.resolvedKind

-- The ways an adjustment goes through.
inductive Goes (parse : String → Option Json) (index : CompensationIndex) :
    Txn F (LedgerEntry F) → Prop
  | replay {e : LedgerEntry F} :
    a.idempotencyKey = some key → t.adjustmentUnder key = some e → a.IsReplay parse e →
    Goes parse index (.answer e)
  | adjust {card card' : Card} :
    a.idempotencyKey.bind t.adjustmentUnder = none →
    checkRequests t index a a.distinct (a.charged t archives) = .ok () →
    t.cards.lookup a.cardId = some card → card.status ≠ .voided →
    card.adjusted a.deltaMicroCredits = .ok card' →
    Goes parse index (.write (t.withCard a.cardId card' [a.entry t archives])
      (·.withCard a.cardId card' [a.entry t archives]) (a.entry t archives))

end BalanceAdjustment

section

variable {t : Tables F} {parse : String → Option Json} {index : CompensationIndex}
variable {archives : List (List (LedgerEntry F))} {a b : BalanceAdjustment}

theorem adjustCardBalance_eq_ok : t.adjustCardBalance parse index archives a = .ok txn ↔
    a.Valid ∧ a.Goes t archives parse index txn := by
  simp only [Tables.adjustCardBalance, bind_eq_ok', exists_unit, ensure_eq_ok, refuse_eq_ok]
  constructor
  case mp =>
    rintro ⟨ho, hr, hd, hc, h⟩
    refine ⟨⟨by simpa using ho, by simpa using hr, by simpa using hd, hc⟩, ?_⟩
    split at h
    case h_1 e he =>
      simp only [replayAdjustment, bind_eq_ok', exists_unit, pure_eq_ok, ensure_eq_ok] at h
      obtain ⟨key, hk, hu⟩ := Option.bind_eq_some_iff.mp he
      exact h.right ▸ .replay hk hu h.left
    case h_2 hn =>
      simp only [Tables.newAdjustment, bind_eq_ok', exists_unit, pure_eq_ok, getCard_eq_ok,
        ensure_eq_ok] at h
      obtain ⟨hreq, card, hf, hv, card', ha, h⟩ := h
      exact h ▸ .adjust hn hreq hf (by simpa using hv) ha
  case mpr =>
    rintro ⟨hv, h⟩
    refine ⟨by simp [hv.operator], by simp [hv.reason], by simp [hv.amount], hv.cash, ?_⟩
    cases h
    case replay e key hk hu hm =>
      simp only [hk, Option.bind_some, hu, replayAdjustment, bind_eq_ok', exists_unit, pure_eq_ok,
        ensure_eq_ok]
      exact ⟨hm, trivial⟩
    case adjust card card' hn hreq hf hs ha =>
      simp only [hn, Tables.newAdjustment, bind_eq_ok', exists_unit, pure_eq_ok, getCard_eq_ok,
        ensure_eq_ok]
      exact ⟨hreq, card, hf, by simpa using hs, card', ha, rfl⟩

-- What an adjustment's detail names.

section

variable {kind : AdjustmentKind} {cash : Option I64} {ids : List String} {charged : List I64}

theorem adjustmentDetail_kind :
    (adjustmentDetail kind cash ids charged).get? "kind" = some (.str kind.asStr) := by
  cases cash <;> rfl

theorem adjustmentDetail_cash :
    (adjustmentDetail kind cash ids charged).get? "cashMicroCny" = cash.map (.num ·.val) := by
  cases cash
  case some => rfl
  case none => rcases ids with _ | ⟨_, _ | _⟩ <;> rfl

theorem adjustmentDetail_invocationIds :
    (adjustmentDetail kind cash ids charged).get? "invocationIds" =
      if ids.isEmpty then none else some (.arr (ids.map .str)) := by
  cases cash <;> rcases ids with _ | ⟨_, _ | _⟩ <;> rfl

theorem linkedRequests_adjustmentDetail :
    linkedRequests (some (adjustmentDetail kind cash ids charged)) = ids := by
  have hs : (ids.map Json.str).filterMap Json.asStr? = ids := by
    simp [List.filterMap_map, Function.comp_def, Json.asStr?]
  simp only [linkedRequests, adjustmentDetail_invocationIds]
  cases ids
  case nil => cases cash <;> rfl
  case cons => simpa [Json.asArr?] using hs

theorem asI64?_num (x : I64) : Json.asI64? (.num x.val) = some x := by
  have := x.lower
  have := x.upper
  simp [Json.asI64?]
  omega

theorem adjustmentKind_entry {e : LedgerEntry F} (hk : e.kind = .adjustment)
    (hc : e.creditsCharged ≠ 0) (hm : e.exposedModel ≠ upgradeEvent)
    (hd : e.detail = some (adjustmentDetail kind cash ids charged)) :
    adjustmentKind parse e = some (kind, cash) := by
  have hcash : (cash.map (fun c => Json.num c.val)).bind Json.asI64? = cash := by
    cases cash
    case none => rfl
    case some c => exact asI64?_num c
  simp only [adjustmentKind, hk, hc, hm, ne_eq, not_true_eq_false, or_self, if_false,
    LedgerEntry.eventDetail, hd, Option.bind_some, adjustmentDetail_cash, adjustmentDetail_kind,
    hcash]
  cases kind <;> rfl

end

theorem insertionSort_eq_iff {xs ys : List String} (hx : xs.Nodup) (hy : ys.Nodup) :
    xs.insertionSort (· ≤ ·) = ys.insertionSort (· ≤ ·) ↔ ∀ id, id ∈ xs ↔ id ∈ ys := by
  rw [← List.perm_ext_iff_of_nodup hx hy]
  constructor
  case mp =>
    intro h
    exact (List.perm_insertionSort _ xs).symm.trans (h ▸ List.perm_insertionSort _ ys)
  case mpr =>
    intro h
    refine List.Perm.eq_of_pairwise ?_ (List.pairwise_insertionSort (· ≤ ·) xs)
      (List.pairwise_insertionSort (· ≤ ·) ys) ?_
    · exact fun _ _ _ _ h h' => le_antisymm h h'
    · exact (List.perm_insertionSort _ xs).trans (h.trans (List.perm_insertionSort _ ys).symm)

namespace BalanceAdjustment

theorem mem_distinct {id : String} : id ∈ a.distinct ↔ id ∈ a.requests := by
  simp [distinct, Billing.mem_distinct]

theorem nodup_distinct : a.distinct.Nodup := Billing.nodup_distinct .nil

-- An adjustment's entry records what it asks for.
theorem Valid.isReplay (h : a.Valid) : a.IsReplay parse (a.entry t archives) := by
  have hk : adjustmentKind parse (a.entry t archives) = some (a.resolvedKind, a.cashMicroCny) :=
    adjustmentKind_entry rfl h.amount (by simp [entry, adjustmentEntry, upgradeEvent]) rfl
  have hl : linkedRequests ((a.entry t archives).eventDetail parse) = a.distinct :=
    linkedRequests_adjustmentDetail
  simp only [IsReplay, isSameAdjustment, hk, hl]
  simp [entry, adjustmentEntry]

-- An entry that records what one adjustment asks for records what another does just when they ask for
-- the same.
theorem IsReplay.iff_same {e : LedgerEntry F} (h : a.IsReplay parse e) :
    b.IsReplay parse e ↔ a.Same b := by
  simp only [IsReplay, isSameAdjustment, Bool.and_eq_true, decide_eq_true_eq] at h ⊢
  have ⟨⟨⟨⟨⟨hc, ha⟩, ho⟩, hr⟩, hl⟩, hk⟩ := h
  rw [hc, ha, ho, hr, hl, hk, insertionSort_eq_iff nodup_distinct nodup_distinct]
  simp only [Option.some.injEq, Prod.mk.injEq, mem_distinct]
  constructor
  case mp =>
    rintro ⟨⟨⟨⟨⟨hc, ha⟩, ho⟩, hr⟩, hl⟩, hk⟩
    exact ⟨hc.symm, ha.symm, ho.symm, hr.symm, fun id => (hl id).symm, hk.left.symm,
      hk.right.symm⟩
  case mpr =>
    intro h
    exact ⟨⟨⟨⟨⟨h.card.symm, h.amount.symm⟩, h.operator.symm⟩, h.reason.symm⟩,
      fun id => (h.requests id).symm⟩, h.kind.symm, h.cash.symm⟩

theorem Valid.of_same (h : a.Valid) (hs : a.Same b) : b.Valid :=
  ⟨hs.operator ▸ h.operator, hs.reason ▸ h.reason, hs.amount ▸ h.amount,
    hs.kind ▸ hs.cash ▸ h.cash⟩

end BalanceAdjustment

section

variable [F64 F] {t : Tables F} {u v : CardUpgrade} {plan : Plan F} {card extended : Card}
variable {extension : List (String × Json)}

theorem upgradeCard_goes (h : t.upgradeCard parse u = .ok txn) : u.Valid ∧ u.Goes t parse txn := by
  simp only [Tables.upgradeCard, namedOperator, bind_eq_ok', exists_unit, ensure_eq_ok,
    pure_eq_ok, Bool.and_eq_true, decide_eq_true_eq] at h
  obtain ⟨_, ⟨ho, hn⟩, hr, ⟨hd, hc⟩, h⟩ := h
  subst hn
  refine ⟨⟨by simpa using ho, by simpa using hr, hd, hc⟩, ?_⟩
  split at h
  case h_1 e he =>
    simp only [bind_eq_ok', exists_unit, pure_eq_ok, ensure_eq_ok, getCard_eq_ok] at h
    obtain ⟨hs, _, hf, h⟩ := h
    obtain ⟨_, hk, hu⟩ := Option.bind_eq_some_iff.mp he
    exact h ▸ .replay hk hu hs hf
  case h_2 hn =>
    simp only [Tables.newUpgrade, bind_eq_ok', exists_unit, pure_eq_ok, getCard_eq_ok,
      ofOption_eq_ok] at h
    obtain ⟨_, hf, _, _, _, hp, _, _, _, _, hx, h⟩ := h
    exact h ▸ .upgrade hn hf hp hx

theorem CardUpgrade.Valid.replays {e : LedgerEntry F} (h : u.Valid)
    (hk : u.idempotencyKey = some key) (hu : t.adjustmentUnder key = some e)
    (hr : u.IsReplay parse e) (hf : t.cards.lookup u.cardId = some card) :
    t.upgradeCard parse u = .ok (.answer card) := by
  simp only [Tables.upgradeCard, namedOperator, bind_eq_ok', exists_unit, ensure_eq_ok,
    pure_eq_ok, Bool.and_eq_true, decide_eq_true_eq]
  refine ⟨_, ⟨by simp [h.operator], rfl⟩, by simp [h.reason], ⟨h.credits, h.cash⟩, ?_⟩
  simp only [hk, Option.bind_some, hu, bind_eq_ok', exists_unit, ensure_eq_ok, getCard_eq_ok,
    pure_eq_ok]
  exact ⟨hr, card, hf, rfl⟩

omit [F64 F] in
theorem upgradeEntry_fields (ledgerLen : Nat) (u : CardUpgrade) (operator reason : String) (d : Json) :
    let e : LedgerEntry F := upgradeEntry ledgerLen u operator reason d
    e.exposedModel = upgradeEvent ∧ e.operatorId = some operator ∧
      e.reason = nonBlank (Text.trim reason) ∧ e.detail = some d := by
  simp only [upgradeEntry]
  split <;> simp [cardEventEntry]

omit [F64 F] in
theorem upgradeDetail_fields (u : CardUpgrade) (plan : Plan F) (groupId : String)
    (card extended : Card) (extension : List (String × Json)) (snapshot : IssuedPlan) :
    let d := upgradeDetail u plan groupId card extended extension snapshot
    d.get? "planId" = some (.str plan.id) ∧ d.get? "cashMicroCny" = some (.num u.cashMicroCny.val) ∧
      d.get? "extendDays" = some (.num u.extendDays) ∧ d.get? "groupId" = some (.str groupId) :=
  ⟨rfl, rfl, rfl, rfl⟩

theorem CardUpgrade.Valid.isReplay (h : u.Valid) (hp : plan.id = u.planId) :
    u.IsReplay parse (u.entry t plan card extended extension) := by
  have ⟨hm, ho, hr, hd⟩ := upgradeEntry_fields (F := F) t.ledger.length u (Text.trim u.operatorId)
    (Text.trim u.reason)
    (upgradeDetail u plan (u.targetGroup plan) card extended extension (u.snapshot plan))
  have ⟨hc, _, ha, _⟩ := upgradeEntry_spec (F := F) t.ledger.length u (Text.trim u.operatorId)
    (Text.trim u.reason)
    (upgradeDetail u plan (u.targetGroup plan) card extended extension (u.snapshot plan))
  have hreason : nonBlank (Text.trim (Text.trim u.reason)) = some (Text.trim u.reason) := by
    simp [nonBlank, h.reason]
  have ⟨h₁, h₂, h₃, h₄⟩ := upgradeDetail_fields u plan (u.targetGroup plan) card extended extension
    (u.snapshot plan)
  have hg : ∀ g ∈ u.groupId, u.targetGroup plan = g := by
    intro g hg
    simp [targetGroup, Option.mem_def.mp hg]
  simp only [IsReplay, isSameUpgrade, entry, LedgerEntry.eventDetail, hm, ho, hr, hd, hc, ha,
    hreason, Option.getD_some, h₁, h₂, h₃, h₄]
  simpa [Json.asStr?, hp, Option.all_eq_true] using hg

omit [F64 F] in
-- An entry that records what one upgrade asks for records what another does just when they ask for the
-- same.
theorem CardUpgrade.IsReplay.iff_same {e : LedgerEntry F} (h : u.IsReplay parse e)
    (hg : (((e.eventDetail parse).getD .null).get? "groupId").bind Json.asStr? = some g) :
    v.IsReplay parse e ↔ u.Same v g := by
  simp only [IsReplay, isSameUpgrade, Bool.and_eq_true, decide_eq_true_eq] at h ⊢
  have ⟨⟨⟨⟨⟨⟨⟨⟨hc, hm⟩, ha⟩, ho⟩, hr⟩, hp⟩, hcash⟩, hdays⟩, _⟩ := h
  have ⟨cash, hcash, hn⟩ := Option.any_eq_true _ _ |>.mp hcash
  have ⟨days, hdays, hd⟩ := Option.any_eq_true _ _ |>.mp hdays
  cases cash <;> simp only [Bool.false_eq_true, decide_eq_true_eq] at hn
  cases days <;> simp only [Bool.false_eq_true, decide_eq_true_eq] at hd
  subst hn hd
  rw [hc, ha, ho, hr, hp, hcash, hdays, hg]
  simp only [hm, and_true, Option.some.injEq, Option.all_eq_true, decide_eq_true_eq,
    Option.any_some, Int.natCast_inj]
  constructor
  case mp =>
    rintro ⟨⟨⟨⟨⟨⟨⟨hc, ha⟩, ho⟩, hr⟩, hp⟩, hcash⟩, hdays⟩, hgroup⟩
    exact ⟨hc.symm, hp.symm, ha.symm, I64.eq_iff.mpr hcash.symm, hdays.symm, ho.symm, hr.symm,
      fun g' h => (hgroup g' h).symm⟩
  case mpr =>
    intro h
    exact ⟨⟨⟨⟨⟨⟨⟨h.card.symm, h.credits.symm⟩, h.operator.symm⟩, h.reason.symm⟩, h.plan.symm⟩,
      by rw [h.cash]⟩, by rw [h.days]⟩, fun g' hg' => (h.group g' hg').symm⟩

end

end
end Billing
