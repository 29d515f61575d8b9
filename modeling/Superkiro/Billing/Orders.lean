import Superkiro.Billing.Conservation
import Superkiro.Billing.Platform

namespace Billing

open F64 Except Host PlatformHost AList

section

variable [F64 F] [Host F] {t t' : Tables F} {c : Change F}

-- Only the platform's orders add to those that were fulfilled.
theorem Change.Step.issuanceOrders (h : Step t c t') : t'.issuanceOrders = t.issuanceOrders := by
  cases h
  case publish h =>
    rw [h.configured]
    rfl
  all_goals rfl

end

-- A card that was activated, also beneath a suspension.
structure Lifecycle.Begun (l : Lifecycle) : Prop where
  activated : l.activatedAt.isSome
  status    : l.status ≠ .unactivated
  origin    : l.frozenFrom ≠ some .unactivated

theorem Lifecycle.Begun.turn {l l' : Lifecycle} {turn : Turn} (h : l.Begun)
    (ht : l.turn turn = some l') : l'.Begun := by
  obtain ⟨ha, hs, ho⟩ := h
  have hu : l.unsuspended ≠ .unactivated := by simp [unsuspended, ha]
  have hw {s : CardStatus} (h : s ≠ .unactivated) : s.woken ≠ .unactivated := by
    unfold CardStatus.woken
    split <;> simp [h]
  cases turn <;> simp only [Lifecycle.turn, Option.ite_none_left_eq_some,
    Option.ite_none_right_eq_some, Option.some.injEq] at ht
  case revoke => exact ht ▸ ⟨ha, hs, ho⟩
  case freeze => exact ht.right ▸ ⟨ha, by rintro ⟨⟩, by simpa using hs⟩
  case unfreeze =>
    have horigin : l.origin ≠ .unactivated := by
      rw [Lifecycle.origin]
      cases hf : l.frozenFrom
      case none => exact hu
      case some s => exact fun he => ho (hf.trans (congrArg some he))
    exact ht.right ▸ ⟨ha, horigin, by rintro ⟨⟩⟩
  case ban | void => exact ht.right ▸ ⟨ha, by rintro ⟨⟩, ho⟩
  case unban =>
    refine ht.right ▸ ⟨ha, ?_, ho⟩
    by_cases hf : l.frozenFrom.isSome <;> simp [hf, hu]
  case consume | activate => exact absurd ht.left hs
  case wake => exact ht ▸ ⟨ha, hw hs, ho⟩
  case revive =>
    refine ht ▸ ⟨ha, hw hs, fun he => ?_⟩
    obtain ⟨s, hf, hsw⟩ := Option.map_eq_some_iff.mp he
    exact hw (fun he => ho (hf.trans (congrArg some he))) hsw

-- A card that was activated stays so.
structure Tables.Begins (k : String) (t : Tables F) : Prop where
  keyed : t.Keyed
  card  : ∃ c, t.cards.lookup k = some c ∧ c.lifecycle.Begun

theorem Change.Step.begins [F64 F] [Host F] {t t' : Tables F} {c : Change F} (h : Step t c t')
    (hb : t.Begins k) : t'.Begins k := by
  have ⟨hk, old, ho, hs⟩ := hb
  have ⟨new, hn, ht⟩ := h.turned hk ho
  exact ⟨h.keyed hk, new, hn, Lifecycle.turns_preserves ht.lifecycle hs fun _ h ht => h.turn ht⟩

-- A code's record that's used up in a step.
def Engine.UsesUp (e e' : Engine F) (k : String) : Prop :=
  (∃ c, e.tables.topupCodes.lookup k = some c ∧ c.isUsed = false) ∧
    ∃ c, e'.tables.topupCodes.lookup k = some c ∧ c.isUsed

-- A card that's activated in a step.
def Engine.TurnsOn (e e' : Engine F) (k : String) : Prop :=
  (∃ c, e.tables.cards.lookup k = some c ∧ c.lifecycle.Sound ∧ c.status = .unactivated) ∧
    ∃ c, e'.tables.cards.lookup k = some c ∧ c.status ≠ .unactivated

-- What memory and disk keep of orders: they agree.
structure Engine.Ready (e : Engine F) : Prop where
  keyed  : e.Invariant Tables.Keyed
  orders : e.persistent → ∀ {s}, e.disk = some s →
    s.tables.issuanceOrders = e.tables.issuanceOrders

namespace Engine

variable [F64 F] [Host F] {e e' : Engine F} {io : Io} {op : Op F}

theorem exec_orders (io : Io) (h : e.Ready) (hr : op = .reload → e.persistent) :
    (e.exec io op).tables.issuanceOrders = e.tables.issuanceOrders ∧
      ((e.exec io op).disk = e.disk ∨ ∃ s, (e.exec io op).disk = some s ∧
        s.tables.issuanceOrders = e.tables.issuanceOrders) := by
  have hsrc : (e.source op).issuanceOrders = e.tables.issuanceOrders := by
    by_cases hop : op = .reload
    case neg => rw [source_eq hop]
    case pos =>
      subst hop
      simp only [source]
      cases hd : e.disk
      case none => rfl
      case some s => exact h.orders (hr rfl) hd
  obtain ⟨⟨cs, hsteps, _⟩, hd⟩ := exec_effect io op h.keyed.source
  have ht := hsteps.preserves (I := fun t => t.issuanceOrders = e.tables.issuanceOrders)
    (fun h hs => hs.issuanceOrders.trans h) hsrc
  refine ⟨ht, hd.imp_right ?_⟩
  rintro ⟨s, hs, hst, _⟩
  exact ⟨s, hs, hst ▸ ht⟩

theorem Ready.exec (h : e.Ready) (hr : op = .reload → e.persistent) : (e.exec io op).Ready := by
  have ⟨ht, hd⟩ := exec_orders io h hr
  have hk : (e.exec io op).Invariant Tables.Keyed := h.keyed.exec id fun _ hk hs => hs.keyed hk
  refine ⟨hk, ?_⟩
  intro hp s hs
  rw [ht]
  rw [exec_persistent] at hp
  cases hd
  case inl hd => exact h.orders hp (hd ▸ hs)
  case inr hd =>
    have ⟨s', hs', ho⟩ := hd
    rw [hs', Option.some.injEq] at hs
    exact hs ▸ ho

end Engine

-- A batch that answers a request: as many cards as it asks for, each handed out with its code.
structure Batch (F : Type) [Host F] (req : PullCardsRequest) (now : Nat) (cards : List Card)
    (r : PullCardsResponse) : Prop where
  order  : r.orderId = req.orderId
  time   : r.dispensedAt = now
  count  : cards.length = req.count
  handed : List.Forall₂ (fun (c : Card) (d : DispensedCardItem) =>
    d.cardId = c.id ∧ d.groupId = c.groupId ∧ d.initialCredits = c.creditTotal ∧
      d.status = .unactivated ∧ c.status = .unactivated ∧ c.creditUsed = 0 ∧
      c.codeHash = hashCardCode F d.rawCode) cards r.cards

-- A card that's as new, kept under the hash of its code.
def GeneratedCard.Minted (F : Type) [Host F] (g : GeneratedCard) : Prop :=
  g.card.status = .unactivated ∧ g.card.creditUsed = 0 ∧ g.card.codeHash = hashCardCode F g.rawCode

section Generation

variable [Host F] {t : CardTemplate} {req : PullCardsRequest} {rng : Rng} {now : Nat} {kek : Bool}

theorem generateBatch_eq_ok {gs : List GeneratedCard}
    (h : generateBatch F t count note now rng = .ok gs) :
    gs.length = count ∧ ∀ g ∈ gs, g.Minted F := by
  simp only [generateBatch, bind_eq_ok', exists_unit] at h
  have ⟨hl, hg⟩ := mapM_eq_ok h.right
  refine ⟨by simpa using hl, ?_⟩
  intro g hm
  have ⟨i, _, hi⟩ := hg g hm
  simp only [bind_eq_ok', ofOption_eq_ok, pure_eq_ok] at hi
  have ⟨_, _, he⟩ := hi
  subst he
  exact ⟨rfl, rfl, rfl⟩

variable [PlatformHost]

theorem sealCard_eq_ok {g g' : GeneratedCard} (h : sealCard g = .ok g') (hm : g.Minted F) :
    g'.Minted F := by
  simp only [sealCard, bind_eq_ok', ofOption_eq_ok, pure_eq_ok] at h
  have ⟨_, _, he⟩ := h
  subst he
  exact hm

theorem generateOrder_eq_ok {cards : List Card} {r : PullCardsResponse}
    (h : generateOrder F kek t req now rng = .ok (cards, r)) : Batch F req now cards r := by
  simp only [generateOrder, generateRecoverableCards, bind_eq_ok', exists_unit, pure_eq_ok,
    ensure_eq_ok, liftCard, mapError_eq_ok, Prod.mk.injEq] at h
  obtain ⟨gs', ⟨_, gs, hb, hs⟩, hc, hr⟩ := h
  obtain ⟨hl, hm⟩ := generateBatch_eq_ok hb
  obtain ⟨hl', hs⟩ := mapM_eq_ok hs
  have hm' : ∀ g ∈ gs', g.Minted F := by
    intro g hg
    obtain ⟨_, hx, he⟩ := hs g hg
    exact sealCard_eq_ok he (hm _ hx)
  subst hc hr
  constructor
  case order => rfl
  case time => rfl
  case count => simp [← hl, hl']
  case handed =>
    simp only [List.map_map, List.forall₂_map_left_iff, List.forall₂_map_right_iff]
    refine List.forall₂_same.mpr fun g hg => ?_
    obtain ⟨hs, hu, hh⟩ := hm' g hg
    exact ⟨rfl, rfl, rfl, hs, hs, hu, hh⟩

end Generation

namespace Tables

variable {t t' : Tables F} {cards : List Card} {k : String}

theorem issueCard_eq_ok {card : Card} (h : t.issueCard card = .ok t') :
    card.id ∉ t.cards ∧ t' = t.putCard card.id card := by
  simp only [issueCard, bind_eq_ok', exists_unit, ensure_eq_ok, pure_eq_ok, Bool.not_eq_true',
    decide_eq_false_iff_not] at h
  exact ⟨h.right.left, h.right.right.symm⟩

theorem putCards_cons (card : Card) :
    t.putCards (card :: cards) = (t.putCard card.id card).putCards cards := rfl

theorem lookup_putCards (h : k ∉ cards.map (·.id)) :
    (t.putCards cards).cards.lookup k = t.cards.lookup k := by
  induction cards generalizing t
  case nil => rfl
  case cons card cards hi =>
    rw [List.map_cons, List.mem_cons, not_or] at h
    rw [putCards_cons, hi h.right]
    exact lookup_insert_ne h.left

theorem putCards_eq (t : Tables F) (cards : List Card) : ∃ cs, t.putCards cards = { t with cards := cs } := by
  induction cards generalizing t
  case nil => exact ⟨_, rfl⟩
  case cons hi => exact hi _

theorem putCards_keyed (cards : List Card) (h : t.Keyed) : (t.putCards cards).Keyed := by
  induction cards generalizing t
  case nil => exact h
  case cons hi => exact hi ⟨h.cards.insert rfl, h.reservations, h.topupCodes⟩

theorem withOrder_keyed {id : String} {o : IssuanceOrder} (h : t.Keyed) :
    ((t.putCards cards).withOrder id o).Keyed :=
  have h := putCards_keyed cards h
  ⟨h.cards, h.reservations, h.topupCodes⟩

-- Cards that are issued are new, and no two of them are the same.
theorem issueCards_eq_ok (h : cards.foldlM issueCard t = .ok t') :
    t' = t.putCards cards ∧ (cards.map (·.id)).Nodup ∧ (∀ c ∈ cards, c.id ∉ t.cards) ∧
      ∀ c ∈ cards, t'.cards.lookup c.id = some c := by
  induction cards generalizing t
  case nil =>
    cases h
    simp [putCards]
  case cons card cards hi =>
    obtain ⟨t₁, h₁, h⟩ := bind_eq_ok'.mp h
    obtain ⟨hn, ht⟩ := issueCard_eq_ok h₁
    subst ht
    obtain ⟨ht, hd, hf, hl⟩ := hi h
    have hne : ∀ c ∈ cards, c.id ≠ card.id ∧ c.id ∉ t.cards := by
      intro c hc
      simpa [putCard, AList.mem_insert] using hf c hc
    have hc : card.id ∉ cards.map (·.id) := by
      intro hm
      obtain ⟨c, hc, he⟩ := List.mem_map.mp hm
      exact (hne c hc).left he
    refine ⟨ht, by simpa [hd] using hc, ?_, ?_⟩
    · exact List.forall_mem_cons.mpr ⟨hn, fun c hc => (hne c hc).right⟩
    · refine List.forall_mem_cons.mpr ⟨?_, hl⟩
      rw [ht, lookup_putCards hc]
      exact lookup_insert _

variable [PlatformHost] {order order' : IssuanceOrder} {txn : Txn F String}

theorem fulfillCardOrder_known {id fingerprint : String}
    {generate : Result (List Card × PullCardsResponse)} (h : t.issuanceOrders.lookup id = some order) :
    t.fulfillCardOrder id fingerprint generate =
      if order.fingerprint = fingerprint then .ok (.answer order.responseJson)
      else .error (.invalidState "order_id was already used with a different request") := by
  simp only [fulfillCardOrder, h]
  by_cases hf : order.fingerprint = fingerprint <;> simp [hf, ensure, bind, Except.bind, pure, Except.pure]

theorem fulfillCardOrder_new {id fingerprint : String}
    {generate : Result (List Card × PullCardsResponse)} (hn : t.issuanceOrders.lookup id = none)
    (h : t.fulfillCardOrder id fingerprint generate = .ok txn) :
    ∃ cards r candidate, generate = .ok (cards, r) ∧ cards.foldlM issueCard t = .ok candidate ∧
      txn = .write (candidate.withOrder id ⟨fingerprint, responseJson r⟩)
        (fun live => (live.putCards cards).withOrder id ⟨fingerprint, responseJson r⟩)
        (responseJson r) := by
  simp only [fulfillCardOrder, hn, bind_eq_ok', pure_eq_ok] at h
  have ⟨⟨cards, r⟩, hg, candidate, hc, hw⟩ := h
  exact ⟨cards, r, candidate, hg, hc, hw.symm⟩

theorem fulfillCardOrder_publishes {id fingerprint : String}
    {generate : Result (List Card × PullCardsResponse)} :
    Engine.Publishes t (t.fulfillCardOrder id fingerprint generate) := by
  intro c pub a h
  cases hl : t.issuanceOrders.lookup id
  case some order =>
    rw [fulfillCardOrder_known hl] at h
    split at h <;> cases h
  case none =>
    have ⟨cards, r, candidate, _, hc, hw⟩ := fulfillCardOrder_new hl h
    cases hw
    have ⟨ht, _⟩ := issueCards_eq_ok hc
    rw [ht]

end Tables

namespace Platform

variable [F64 F] [Host F] [PlatformHost] {p p' : Platform F} {io : Io} {t : CardTemplate}
variable {req : PullCardsRequest} {now : Nat} {rng : Rng}

-- What issuing an order's cards does: they're new, no two are the same, and nothing else changes.
structure Issued (p p' : Platform F) (req : PullCardsRequest) (now : Nat) (r : PullCardsResponse) :
    Prop where
  new        : req.orderId ∉ p.engine.tables.issuanceOrders
  batch      : ∃ cards, Batch F req now cards r ∧ (cards.map (·.id)).Nodup ∧
    (∀ c ∈ cards, c.id ∉ p.engine.tables.cards ∧ p'.engine.tables.cards.lookup c.id = some c) ∧
    p'.engine.tables =
      (p.engine.tables.putCards cards).withOrder req.orderId ⟨req.fingerprint, responseJson r⟩
  saved      : p.engine.Saved p'.engine
  persisted  : p.engine.Persisted p'.engine
  persistent : p'.engine.persistent = p.engine.persistent
  redeems    : p'.redeems = p.redeems

-- The ways a pull ends: refused, or not saved; answered as it was before; or fulfilled.
inductive Pulled (p : Platform F) (req : PullCardsRequest) (now : Nat) :
    Except String PullCardsResponse → Platform F → Prop
  | refused {m : String} {p' : Platform F} : p.engine.Unchanged p'.engine →
    p'.engine.persistent = p.engine.persistent → p'.redeems = p.redeems →
    (req.orderId ∈ p.engine.tables.issuanceOrders → p' = p) → Pulled p req now (.error m) p'
  | replayed {order : IssuanceOrder} :
    p.engine.tables.issuanceOrders.lookup req.orderId = some order →
    order.fingerprint = req.fingerprint →
    Pulled p req now ((readResponse order.responseJson).elim (.error "invalid response") .ok) p
  | issued {r : PullCardsResponse} {p' : Platform F} : Issued p p' req now r → Pulled p req now (.ok r) p'

omit [F64 F] in
theorem pullCards_known {order : IssuanceOrder} (hc : req.check t = .ok u)
    (hl : p.engine.tables.issuanceOrders.lookup req.orderId = some order) :
    p.pullCards io t req now rng =
      (if order.fingerprint = req.fingerprint then
        (readResponse order.responseJson).elim (.error "invalid response") .ok
      else .error (BillingError.message
        (.invalidState "order_id was already used with a different request")), p) := by
  simp only [pullCards, hc, Tables.fulfillCardOrder_known hl]
  by_cases hf : order.fingerprint = req.fingerprint
  case pos =>
    rw [if_pos hf, if_pos hf]
    rfl
  case neg =>
    rw [if_neg hf, if_neg hf]
    rfl

omit [F64 F] in
theorem pullCards_new (hc : req.check t = .ok u)
    (hn : p.engine.tables.issuanceOrders.lookup req.orderId = none) :
    Pulled p req now (p.pullCards io t req now rng).1 (p.pullCards io t req now rng).2 := by
  simp only [pullCards, hc]
  generalize htxn : p.engine.tables.fulfillCardOrder req.orderId req.fingerprint _ = txn
  have ht : Engine.Transacted p.engine io txn _ _ :=
    Engine.transact_cases io (htxn ▸ Tables.fulfillCardOrder_publishes)
  have hp : (p.engine.transact io txn).2.persistent = p.engine.persistent :=
    congrArg Process.persistent Engine.transact_process
  have hno : req.orderId ∉ p.engine.tables.issuanceOrders := lookup_eq_none.mp hn
  generalize p.engine.transact io txn = res at ht hp ⊢
  have ⟨a, e⟩ := res
  cases ht
  case refused => exact .refused ⟨rfl, rfl⟩ rfl rfl fun _ => rfl
  case answered =>
    have ⟨_, _, _, _, _, hw⟩ := Tables.fulfillCardOrder_new hn htxn
    cases hw
  case unsaved hu => exact .refused hu hp rfl fun h => absurd h hno
  case committed hcom =>
    have ⟨cards, r, candidate, hg, hi, hw⟩ := Tables.fulfillCardOrder_new hn htxn
    cases hw
    have ⟨ht, hd, hf, hl⟩ := Tables.issueCards_eq_ok hi
    subst ht
    have hte : e.tables = _ := hcom.tables_eq (by
      have ⟨cs, h⟩ := Tables.putCards_eq p.engine.tables cards
      rw [h]
      rfl)
    simp only [answered, read_responseJson, Option.elim_some]
    refine .issued ⟨hno, ⟨cards, generateOrder_eq_ok hg, hd, ?_, hte⟩, hcom.on_disk, hcom.persisted, hp, rfl⟩
    intro c hc
    refine ⟨hf c hc, ?_⟩
    rw [hte]
    exact hl c hc

omit [F64 F] in
theorem pullCards_isOk (hc : req.check t = .ok u)
    (hn : p.engine.tables.issuanceOrders.lookup req.orderId = none)
    (h : (p.engine.transact io (p.engine.tables.fulfillCardOrder req.orderId req.fingerprint
      (generateOrder F p.engine.masterKek t req now rng))).1.isOk) :
    ∃ r, (p.pullCards io t req now rng).1 = .ok r := by
  have ⟨json, hj⟩ := exists_of_isOk h
  have ht := Engine.transact_eq_ok Tables.fulfillCardOrder_publishes (Prod.ext hj rfl)
  cases ht
  case inl ht =>
    have ⟨_, _, _, _, _, hw⟩ := Tables.fulfillCardOrder_new hn ht.left
    cases hw
  case inr ht =>
    have ⟨_, _, ht, _⟩ := ht
    have ⟨_, r, _, _, _, hw⟩ := Tables.fulfillCardOrder_new hn ht
    injection hw with _ _ hw
    subst hw
    refine ⟨r, ?_⟩
    simp only [pullCards, hc]
    generalize p.engine.transact io _ = res at hj ⊢
    have ⟨a, e⟩ := res
    simp only at hj
    subst hj
    simp only [answered, read_responseJson]
    rfl

omit [F64 F] in
theorem pullCards_pulled :
    Pulled p req now (p.pullCards io t req now rng).1 (p.pullCards io t req now rng).2 := by
  cases hc : req.check t
  case error m =>
    simp only [pullCards, hc]
    exact .refused ⟨rfl, rfl⟩ rfl rfl fun _ => rfl
  case ok =>
    cases hl : p.engine.tables.issuanceOrders.lookup req.orderId
    case none => exact pullCards_new hc hl
    case some order =>
      rw [pullCards_known hc hl]
      by_cases hf : order.fingerprint = req.fingerprint
      case pos =>
        rw [if_pos hf]
        exact .replayed hl hf
      case neg =>
        rw [if_neg hf]
        exact .refused ⟨rfl, rfl⟩ rfl rfl fun _ => rfl

-- What is asked of the platform, or of the engine behind it.
inductive Call (F : Type)
  | pull (t : CardTemplate) (req : PullCardsRequest) (now : Nat) (rng : Rng)
  | redeem (req : RedeemCallbackRequest) (now : Nat)
  | bill (op : Op F)

structure Event (F : Type) where
  call : Call F
  io   : Io

def startsProcess : Op F → Bool
  | .restart | .reload => true
  | _                  => false

-- A new process has no callbacks to remember.
def exec (p : Platform F) (l : Event F) : Platform F :=
  match l.call with
  | .pull t req now rng => (p.pullCards l.io t req now rng).2
  | .redeem req now     => (p.processRedeem l.io req now).2
  | .bill op            =>
    ⟨p.engine.exec l.io op, if startsProcess op then ∅ else p.redeems⟩

-- A process that keeps no files isn't followed by one that reads them.
def Step (p : Platform F) (l : Event F) (p' : Platform F) : Prop :=
  p' = p.exec l ∧ (l.call = .bill .reload → p.engine.persistent)

variable {req : RedeemCallbackRequest} {card : Card}

omit [PlatformHost] in
-- A callback works through the engine's own operations.
theorem redeem_engine : (p.redeem io req card now).2 = p.engine ∨
    ∃ op, op ≠ .reload ∧ (p.redeem io req card now).2 = p.engine.exec io op := by
  simp only [redeem]
  cases req.action
  case verifyOnly => exact .inl rfl
  case activate d =>
    simp only
    split
    case isTrue => exact .inl rfl
    case isFalse => exact .inr ⟨.activateCard card.id now d, nofun, rfl⟩
  case bindDevice device =>
    simp only
    split
    case isTrue => exact .inl rfl
    case isFalse => exact .inr ⟨.bindDevice card.id device, nofun, rfl⟩
  case topup code => exact .inr ⟨.redeemTopup card.id code now "card-platform", nofun, rfl⟩

theorem processRedeem_engine : (p.processRedeem io req now).2.engine = p.engine ∨
    ∃ op, op ≠ .reload ∧ (p.processRedeem io req now).2.engine = p.engine.exec io op := by
  simp only [processRedeem]
  split
  case isTrue => exact .inl rfl
  case isFalse =>
    split
    case h_1 => split <;> exact .inl rfl
    case h_2 =>
      split
      case h_1 => exact .inl rfl
      case h_2 card _ =>
        have h : (p.redeem io req card now).2 = p.engine ∨ _ := redeem_engine
        split
        case h_1 he | h_2 he =>
          rw [he] at h
          exact h

-- What an engine does in a step: nothing, one of its operations, or issuing an order.
inductive Acts (p p' : Platform F) : Prop
  | idle : p.engine.Unchanged p'.engine → p'.engine.persistent = p.engine.persistent → Acts p p'
  | operates {io : Io} {op : Op F} : (op = .reload → p.engine.persistent) →
    p'.engine = p.engine.exec io op → Acts p p'
  | issues {req : PullCardsRequest} {now : Nat} {r : PullCardsResponse} :
    Issued p p' req now r → Acts p p'

theorem Step.acts {l : Event F} (h : Step p l p') : Acts p p' := by
  have ⟨he, hr⟩ := h
  subst he
  have ⟨call, io⟩ := l
  cases call
  case pull t req now rng =>
    have h : Pulled p req now _ (p.pullCards io t req now rng).2 := pullCards_pulled
    change Acts p (p.pullCards io t req now rng).2
    generalize (p.pullCards io t req now rng).1 = a at h
    generalize (p.pullCards io t req now rng).2 = p' at h ⊢
    cases h
    case refused hu hp _ _ => exact .idle hu hp
    case replayed => exact .idle ⟨rfl, rfl⟩ rfl
    case issued h => exact .issues h
  case redeem req now =>
    have h : (p.processRedeem io req now).2.engine = p.engine ∨ _ := processRedeem_engine
    cases h
    case inl h => exact .idle ⟨congrArg _ h, congrArg _ h⟩ (congrArg _ h)
    case inr h =>
      have ⟨op, hop, h⟩ := h
      exact .operates (fun h => absurd h hop) h
  case bill op =>
    exact .operates (fun h => hr (h ▸ rfl)) rfl

theorem Acts.ready (h : Acts p p') (hr : p.engine.Ready) : p'.engine.Ready := by
  cases h
  case idle hu hp =>
    refine ⟨⟨hu.tables ▸ hr.keyed.live, fun hd => hr.keyed.saved (hu.disk ▸ hd)⟩, ?_⟩
    intro hp' s hs
    rw [hu.tables]
    exact hr.orders (hp ▸ hp') (hu.disk ▸ hs)
  case operates hrel he => exact he ▸ hr.exec hrel
  case issues h =>
    have ⟨cards, _, _, _, ht⟩ := h.batch
    have hk : p'.engine.tables.Keyed := ht ▸ Tables.withOrder_keyed hr.keyed.live
    refine ⟨⟨hk, fun {s} hs => ?_⟩, fun hp s hs => ?_⟩
    · cases h.saved
      case inl hd => exact hr.keyed.saved (hd ▸ hs)
      case inr hd =>
        have ⟨s', hs', he, _⟩ := hd
        rw [hs', Option.some.injEq] at hs
        rw [← hs, he]
        exact hk
    · rw [h.persisted (h.persistent ▸ hp) hs]

theorem ready_run {ls : List (Event F)} (r : Run Step p ls p') (h : p.engine.Ready) :
    p'.engine.Ready :=
  r.preserves (I := fun p => p.engine.Ready) (fun h hs => hs.acts.ready h) h

-- What lasts through every change and every order, lasts through every run.
theorem lasts {P : Tables F → Prop} {ls : List (Event F)} (hk : ∀ {t}, P t → t.Keyed)
    (hs : ∀ {t c t'}, P t → Change.Step t c t' → P t')
    (hi : ∀ {t cards id order}, (∀ c ∈ cards, c.id ∉ t.cards) → id ∉ t.issuanceOrders → P t →
      P ((t.putCards cards).withOrder id order))
    (r : Run Step p ls p') (h : p.engine.Lasting P) : p'.engine.Lasting P := by
  refine r.preserves (I := fun p => p.engine.Lasting P) ?_ h
  intro p l p' h hstep
  cases hstep.acts
  case idle hu hp =>
    exact ⟨hu.tables ▸ h.live, fun hp' {s} hd => h.saved (hp ▸ hp') (hu.disk ▸ hd)⟩
  case operates hr he =>
    rw [he]
    exact h.exec hk (fun _ => hs) (or_iff_not_imp_right.mpr fun h => hr (not_not.mp h))
  case issues h' =>
    have ⟨cards, _, _, hn, ht⟩ := h'.batch
    have hl : P p'.engine.tables := by
      rw [ht]
      exact hi (fun c hc => (hn c hc).left) h'.new h.live
    exact ⟨hl, fun hp {s} hd => (h'.persisted (h'.persistent ▸ hp) hd) ▸ hl⟩

end Platform

-- A device is bound to a card without one, or stays bound.
theorem Card.bindDeviceLocked_cases {card : Card} {x : Card × Bool}
    (h : card.bindDeviceLocked device = .ok x) :
    (card.boundDevices = [] ∧ x = ({ card with maxDevices := 1, boundDevices := [device] }, true)) ∨
      (card.boundDevices = [device] ∧
        x = ({ card with maxDevices := 1 }, decide (card.maxDevices ≠ 1))) := by
  simp only [bindDeviceLocked, checkDevicePolicy, bind_eq_ok', exists_unit, ensure_eq_ok,
    pure_eq_ok, liftCard_eq_ok, decide_eq_true_eq, Bool.or_eq_true, List.isEmpty_iff] at h
  obtain ⟨hl, _, hd, hx⟩ := h
  by_cases hb : card.boundDevices.contains device
  case pos =>
    rw [if_pos hb] at hx
    refine .inr ⟨?_, hx.symm⟩
    have hm : device ∈ card.boundDevices := by simpa using hb
    obtain ⟨d, hd⟩ := List.length_eq_one_iff.mp (le_antisymm hl (List.length_pos_of_mem hm))
    rw [hd] at hm ⊢
    rw [List.mem_singleton.mp hm]
  case neg =>
    rw [if_neg hb] at hx
    exact .inl ⟨hd.resolve_left hb, hx.symm⟩

namespace Engine

variable [F64 F] [Host F] {e e' : Engine F} {io : Io} {cardId device : String} {card : Card}
variable {now d : Nat}

theorem activateCard_ends (io : Io) (now d : Nat) (hc : e.tables.cards.lookup cardId = some card) :
    (∃ err e', e.activateCard io cardId now d = (.error err, e') ∧ e.Unchanged e') ∨
      ∃ new e', e.activateCard io cardId now d = (.ok new, e') ∧ card.activate now d = .ok new ∧
        e'.tables = e.tables.putCard cardId new ∧ e.Persisted e' := by
  have ht : Transacted e io (e.tables.activateCard cardId now d) _ _ :=
    transact_cases io (Commits.of_replace activateCard_replaces).publishes
  rw [activateCard]
  generalize htxn : e.tables.activateCard cardId now d = txn at ht ⊢
  generalize e.transact io txn = res at ht ⊢
  obtain ⟨a, e'⟩ := res
  have hw {w : Txn F Card} (h : txn = .ok w) :
      ∃ new, card.activate now d = .ok new ∧ w = e.tables.replaceCard cardId new new := by
    rw [← htxn] at h
    simp only [Tables.activateCard, bind_eq_ok', exists_unit, pure_eq_ok, getCard_eq_ok, hc,
      liftCard_eq_ok, Option.some.injEq] at h
    obtain ⟨_, he, _, new, ha, h⟩ := h
    exact ⟨new, he ▸ ha, h.symm⟩
  cases ht
  case refused => exact .inl ⟨_, _, rfl, rfl, rfl⟩
  case unsaved hu => exact .inl ⟨_, _, rfl, hu⟩
  case answered =>
    obtain ⟨_, _, h⟩ := hw rfl
    cases h
  case committed hcom =>
    obtain ⟨_, ha, h⟩ := hw rfl
    cases h
    exact .inr ⟨_, _, rfl, ha, hcom.tables_eq rfl, hcom.persisted⟩

theorem bindDevice_ends (io : Io) (device : String) (hc : e.tables.cards.lookup cardId = some card) :
    (∃ err e', e.bindDevice io cardId device = (.error err, e') ∧ e.Unchanged e') ∨
      ∃ x e', e.bindDevice io cardId device = (.ok (), e') ∧
        card.bindDeviceLocked (Text.trim device) = .ok x ∧
        if x.2 then e'.tables = e.tables.putCard cardId x.1 else e' = e := by
  have ht : Transacted e io (e.tables.bindDevice cardId device) _ _ :=
    transact_cases io (Commits.of_replace bindDevice_replaces).publishes
  rw [bindDevice]
  generalize htxn : e.tables.bindDevice cardId device = txn at ht ⊢
  generalize e.transact io txn = res at ht ⊢
  obtain ⟨a, e'⟩ := res
  have hw {w : Txn F Unit} (h : txn = .ok w) : ∃ x, card.bindDeviceLocked (Text.trim device) = .ok x ∧
      w = if x.2 then e.tables.replaceCard cardId x.1 () else .answer () := by
    rw [← htxn] at h
    simp only [Tables.bindDevice, bind_eq_ok', pure_eq_ok, getCard_eq_ok, hc,
      Option.some.injEq] at h
    obtain ⟨_, he, x, hb, h⟩ := h
    exact ⟨x, he ▸ hb, h.symm⟩
  cases ht
  case refused => exact .inl ⟨_, _, rfl, rfl, rfl⟩
  case unsaved hu => exact .inl ⟨_, _, rfl, hu⟩
  case answered =>
    obtain ⟨x, hb, h⟩ := hw rfl
    refine .inr ⟨x, _, rfl, hb, ?_⟩
    split at h
    case isTrue => cases h
    case isFalse hx => rw [if_neg hx]
  case committed hcom =>
    obtain ⟨x, hb, h⟩ := hw rfl
    refine .inr ⟨x, _, rfl, hb, ?_⟩
    split at h
    case isFalse => cases h
    case isTrue hx =>
      rw [if_pos hx]
      cases h
      exact hcom.tables_eq rfl

end Engine

namespace Platform

variable [F64 F] [Host F] {p : Platform F} {io : Io} {req : RedeemCallbackRequest} {card : Card}
variable {now : Nat}

-- The ways a callback that isn't remembered ends: refused, or with what its action does to a card.
inductive Acted (p : Platform F) (req : RedeemCallbackRequest) (card : Card) (now : Nat) :
    Except String RedeemCallbackResponse → Engine F → Prop
  | refused {m : String} {e : Engine F} : p.engine.Unchanged e → Acted p req card now (.error m) e
  | verified {r : RedeemCallbackResponse} : req.action = .verifyOnly →
    Acted p req card now (.ok r) p.engine
  | activated {r : RedeemCallbackResponse} {d : Nat} {new : Card} {e : Engine F} :
    req.action = .activate d → card.activate now d = .ok new →
    e.tables = p.engine.tables.putCard card.id new → p.engine.Persisted e → Acted p req card now (.ok r) e
  | bound {r : RedeemCallbackResponse} {device : String} {new : Card} {e : Engine F} :
    req.action = .bindDevice device → card.boundDevices = [] → new.boundDevices = [Text.trim device] →
    e.tables = p.engine.tables.putCard card.id new → Acted p req card now (.ok r) e
  | rebound {r : RedeemCallbackResponse} {device : String} {e : Engine F} :
    req.action = .bindDevice device → card.boundDevices = [Text.trim device] →
    (e = p.engine ∨ e.tables = p.engine.tables.putCard card.id { card with maxDevices := 1 }) →
    Acted p req card now (.ok r) e
  | toppedUp {r : RedeemCallbackResponse} {code : String} {entry : LedgerEntry F} {c : TopupCode}
    {e : Engine F} : req.action = .topup code → Engine.Redeemed p.engine e card.id entry c →
    p.engine.Persisted e → Acted p req card now (.ok r) e

theorem redeem_acted (hk : p.engine.tables.Keyed) (hc : p.engine.tables.cards.lookup card.id = some card) :
    Acted p req card now (p.redeem io req card now).1 (p.redeem io req card now).2 := by
  simp only [redeem]
  cases ha : req.action
  case verifyOnly => exact .verified ha
  case activate d =>
    simp only
    split
    case isTrue => exact .refused ⟨rfl, rfl⟩
    case isFalse =>
      cases Engine.activateCard_ends io now d hc
      case inl h =>
        have ⟨err, e', he, hu⟩ := h
        simp only [he]
        exact .refused hu
      case inr h =>
        have ⟨new, e', he, hn, ht, hp⟩ := h
        simp only [he]
        exact .activated ha hn ht hp
  case bindDevice device =>
    simp only
    split
    case isTrue => exact .refused ⟨rfl, rfl⟩
    case isFalse =>
      cases Engine.bindDevice_ends io device hc
      case inl h =>
        have ⟨err, e', he, hu⟩ := h
        simp only [he]
        exact .refused hu
      case inr h =>
        have ⟨x, e', he, hb, ht⟩ := h
        simp only [he]
        cases Card.bindDeviceLocked_cases hb
        case inl hx =>
          have ⟨hd, hx⟩ := hx
          subst hx
          exact .bound ha hd rfl (by simpa using ht)
        case inr hx =>
          have ⟨hd, hx⟩ := hx
          subst hx
          refine .rebound ha hd ?_
          split at ht
          case isTrue => exact .inr ht
          case isFalse => exact .inl ht
  case topup code =>
    simp only
    cases he : p.engine.redeemTopup io card.id code now "card-platform" with
    | mk a e' =>
      cases a
      case error => exact .refused (Engine.redeemTopup_failed hk he)
      case ok entry =>
        have ⟨⟨c, hr⟩, hp⟩ := Engine.redeemTopup_redeemed hk he
        have ⟨_, new, _, hn, _⟩ := hr.card
        simp only [hn]
        exact .toppedUp ha hr hp

omit [F64 F] in
theorem found_lookup {id : String} (hk : p.engine.tables.Keyed)
    (h : p.findCardByCodeOrId id = some card) :
    p.engine.tables.cards.lookup card.id = some card := by
  have hv {c : Card} (hm : c ∈ p.engine.tables.cards.values) :
      p.engine.tables.cards.lookup c.id = some c := by
    have ⟨k, hl⟩ := mem_values.mp hm
    exact hk.cards hl ▸ hl
  simp only [findCardByCodeOrId, Option.or_eq_some_iff] at h
  obtain (h | ⟨_, h⟩) | ⟨_, h⟩ := h
  · split at h
    case isTrue => cases h
    case isFalse => exact hv (List.mem_of_find?_eq_some h)
  · exact hk.cards h ▸ h
  · exact hv (List.mem_of_find?_eq_some h)

variable [PlatformHost]

-- The ways a callback ends: refused, answered as it was before, or carried out and remembered.
inductive Redeeming (p : Platform F) (req : RedeemCallbackRequest) (now : Nat) :
    Except String RedeemCallbackResponse → Platform F → Prop
  | refused {m : String} {p' : Platform F} : p.engine.Unchanged p'.engine →
    p'.redeems = p.redeems ∨ p'.redeems = p.retained now → Redeeming p req now (.error m) p'
  | remembered {c : CachedRedeem} : (p.retained now).lookup req.orderId = some c →
    c.fingerprint = fingerprintOf req →
    Redeeming p req now (.ok c.response) ⟨p.engine, p.retained now⟩
  | acted {card : Card} {r : RedeemCallbackResponse} {e : Engine F} :
    (p.retained now).lookup req.orderId = none →
    p.engine.tables.cards.lookup card.id = some card → Acted p req card now (.ok r) e →
    Redeeming p req now (.ok r)
      ⟨e, (evict (p.retained now)).insert req.orderId ⟨fingerprintOf req, r, now⟩⟩

theorem processRedeem_redeeming (hk : p.engine.tables.Keyed) :
    Redeeming p req now (p.processRedeem io req now).1 (p.processRedeem io req now).2 := by
  simp only [processRedeem]
  split
  case isTrue => exact .refused ⟨rfl, rfl⟩ (.inl rfl)
  case isFalse =>
    split
    case h_1 c hl =>
      split
      case isTrue => exact .refused ⟨rfl, rfl⟩ (.inr rfl)
      case isFalse hf => exact .remembered hl (not_not.mp hf)
    case h_2 hn =>
      split
      case h_1 => exact .refused ⟨rfl, rfl⟩ (.inr rfl)
      case h_2 card hf =>
        have hc := found_lookup hk hf
        have ha : Acted p req card now _ (p.redeem io req card now).2 := redeem_acted hk hc
        split
        case h_1 he =>
          rw [he] at ha
          cases ha
          case refused hu => exact .refused hu (.inr rfl)
        case h_2 he =>
          rw [he] at ha
          exact .acted hn hc ha

omit [PlatformHost] in
-- An entry that's evicted is no younger than any other.
theorem evict_lookup {redeems : Table String CachedRedeem} {id : String} {c : CachedRedeem}
    (h : redeems.lookup id = some c) (hs : redeems.entries.length < maxIdempotencyEntries ∨
      ∃ id' c', redeems.lookup id' = some c' ∧ c'.storedAt < c.storedAt) :
    (evict redeems).lookup id = some c := by
  simp only [evict]
  split
  case isFalse => exact h
  case isTrue hm =>
    split
    case h_2 => exact h
    case h_1 old ho =>
      have ⟨e, he, hid⟩ := Option.map_eq_some_iff.mp ho
      rw [lookup_erase_ne]
      · exact h
      · intro hido
        have ⟨id', c', hl, hlt⟩ := hs.resolve_left (Nat.not_lt.mpr hm)
        have hle := List.le_of_mem_argmin (mem_entries_iff.mpr hl) he
        have hme : redeems.lookup e.1 = some e.2 := mem_entries_iff.mp (List.argmin_mem he)
        rw [hid, ← hido, h, Option.some.injEq] at hme
        rw [← hme] at hle
        exact Nat.not_lt.mpr hle hlt

omit [F64 F] [Host F] [PlatformHost] in
theorem lookup_retained {id : String} {c : CachedRedeem} : (p.retained now).lookup id = some c ↔
    p.redeems.lookup id = some c ∧ now - c.storedAt < idempotencyTtlSecs := by
  simp [retained, lookup_retain]

-- When a step leaves the answer to a callback where it is: it starts no process, and a callback in it
-- comes neither too late for that answer nor when it's the one to be evicted.
def Spares (id : String) (p : Platform F) (l : Event F) : Prop :=
  match l.call with
  | .pull ..      => True
  | .redeem _ now => ∀ c, p.redeems.lookup id = some c →
    now - c.storedAt < idempotencyTtlSecs ∧
      ((p.retained now).entries.length < maxIdempotencyEntries ∨
        ∃ id' c', (p.retained now).lookup id' = some c' ∧ c'.storedAt < c.storedAt)
  | .bill op      => startsProcess op = false

theorem Step.remembers {p p' : Platform F} {l : Event F} {id : String} {c : CachedRedeem}
    (h : Step p l p') (hk : p.engine.tables.Keyed) (hs : Spares id p l)
    (hc : p.redeems.lookup id = some c) : p'.redeems.lookup id = some c := by
  have ⟨he, hrel⟩ := h
  subst he
  clear h hrel
  have ⟨call, io⟩ := l
  cases call
  case pull t req now rng =>
    have h : Pulled p req now _ (p.pullCards io t req now rng).2 := pullCards_pulled
    change (p.pullCards io t req now rng).2.redeems.lookup id = _
    generalize (p.pullCards io t req now rng).1 = a at h
    generalize (p.pullCards io t req now rng).2 = p' at h ⊢
    cases h
    case refused hr _ => exact hr ▸ hc
    case replayed => exact hc
    case issued h => exact h.redeems ▸ hc
  case redeem req now =>
    have ⟨ht, hroom⟩ := hs c hc
    have hret := lookup_retained.mpr ⟨hc, ht⟩
    have h : Redeeming p req now _ (p.processRedeem io req now).2 := processRedeem_redeeming hk
    change (p.processRedeem io req now).2.redeems.lookup id = _
    generalize (p.processRedeem io req now).1 = a at h
    generalize (p.processRedeem io req now).2 = p' at h ⊢
    cases h
    case refused hr =>
      cases hr
      case inl hr => exact hr ▸ hc
      case inr hr => exact hr ▸ hret
    case remembered => exact hret
    case acted hn _ _ =>
      have hne : id ≠ req.orderId := by
        intro he
        rw [he, hn] at hret
        cases hret
      exact (lookup_insert_ne hne).trans (evict_lookup hret hroom)
  case bill op =>
    change (if startsProcess op then ∅ else p.redeems).lookup id = _
    rw [hs]
    exact hc

-- An answer is there for as long as every step spares it.
theorem remembered_run {p p' : Platform F} {ls : List (Event F)} {id : String} {c : CachedRedeem}
    (r : Run (fun p l p' => Step p l p' ∧ Spares id p l) p ls p') (hr : p.engine.Ready)
    (hc : p.redeems.lookup id = some c) : p'.redeems.lookup id = some c := by
  have h := r.preserves (I := fun p => p.engine.Ready ∧ p.redeems.lookup id = some c)
    (fun h hs => ⟨hs.left.acts.ready h.left, hs.left.remembers h.left.keyed.live hs.right h.right⟩)
    ⟨hr, hc⟩
  exact h.right

omit [F64 F] in
theorem processRedeem_remembered {c : CachedRedeem} (hb : Text.isBlank req.orderId = false)
    (hc : (p.retained now).lookup req.orderId = some c) (hf : c.fingerprint = fingerprintOf req) :
    p.processRedeem io req now = (.ok c.response, { p with redeems := p.retained now }) := by
  simp [processRedeem, hb, hc, hf]

-- What is known about an order lasts.
theorem order_lasts {p p' : Platform F} {ls : List (Event F)} {id : String} {o : IssuanceOrder}
    (hr : p.engine.Ready) (h : p.engine.tables.issuanceOrders.lookup id = some o)
    (r : Run Step p ls p') : p'.engine.tables.issuanceOrders.lookup id = some o := by
  have hl : p.engine.Lasting fun t => t.Keyed ∧ t.issuanceOrders.lookup id = some o := by
    refine ⟨⟨hr.keyed.live, h⟩, fun hp {s} hs => ⟨hr.keyed.saved hs, ?_⟩⟩
    rw [hr.orders hp hs]
    exact h
  refine (lasts (·.left) ?_ ?_ r hl).live.right
  · intro t c t' h hs
    exact ⟨hs.keyed h.left, by rw [hs.issuanceOrders]; exact h.right⟩
  · intro t cards id' o' _ hn ⟨hk, h⟩
    refine ⟨Tables.withOrder_keyed hk, ?_⟩
    have hne : id ≠ id' := fun he => hn (he ▸ mem_of_lookup h)
    have ⟨cs, he⟩ := Tables.putCards_eq t cards
    rw [he]
    exact (lookup_insert_ne hne).trans h

omit [F64 F] in
theorem pullCards_eq {t : CardTemplate} {req : PullCardsRequest} {rng : Rng}
    {a : Except String PullCardsResponse} (h : p.pullCards io t req now rng = (a, p')) :
    Pulled p req now a p' := by
  have hp : Pulled p req now _ (p.pullCards io t req now rng).2 := pullCards_pulled
  rwa [h] at hp

-- An answer says of an order that it's known, under the request it answers.
omit [F64 F] in
theorem pullCards_answered {p p' : Platform F} {t : CardTemplate} {req : PullCardsRequest} {rng : Rng}
    {r : PullCardsResponse} (h : p.pullCards io t req now rng = (.ok r, p')) :
    (∃ u, req.check t = .ok u) ∧ ∃ o, p'.engine.tables.issuanceOrders.lookup req.orderId = some o ∧
      o.fingerprint = req.fingerprint ∧ readResponse o.responseJson = some r := by
  have hp : Pulled p req now _ (p.pullCards io t req now rng).2 := pullCards_pulled
  have hc : ∃ u, req.check t = .ok u := by
    cases hc : req.check t
    case error => simp [pullCards, hc] at h
    case ok u => exact ⟨u, rfl⟩
  rw [h] at hp
  refine ⟨hc, ?_⟩
  change Pulled p req now (.ok r) p' at hp
  generalize he : Except.ok r = a at hp
  cases hp
  case refused => cases he
  case replayed o hl hf =>
    refine ⟨o, hl, hf, ?_⟩
    cases hr : readResponse o.responseJson
    case none => simp [hr] at he
    case some r' =>
      rw [hr] at he
      injection he with he
      rw [he]
  case issued h =>
    cases he
    have ⟨cards, _, _, _, ht⟩ := h.batch
    refine ⟨⟨req.fingerprint, responseJson r⟩, ?_, rfl, read_responseJson r⟩
    rw [ht]
    exact lookup_insert _

omit [PlatformHost] in
theorem check_eq_ok {t t' : CardTemplate} {req : PullCardsRequest} (h : req.check t = .ok u)
    (hf : req.Fits t') : req.check t' = .ok u := by
  simp only [PullCardsRequest.check, bind_eq_ok', exists_unit, ensure_eq_ok] at h ⊢
  exact ⟨h.left, h.right.left, by simpa using hf⟩

variable {p p' : Platform F} {e : Engine F} {k : String} {r : RedeemCallbackResponse}

omit [F64 F] [Host F] [PlatformHost] in
-- Only a top-up uses up a code, and it's saved.
theorem Acted.usesUp (h : Acted p req card now (.ok r) e) (hu : p.engine.UsesUp e k) :
    p.engine.Persisted e := by
  have ⟨⟨c, hc, hf⟩, c', hc', hu⟩ := hu
  have changed (h : e.tables.topupCodes = p.engine.tables.topupCodes) : False := by
    rw [h, hc, Option.some.injEq] at hc'
    rw [← hc', hf] at hu
    cases hu
  cases h
  case verified => exact (changed rfl).elim
  case activated ht _ => exact (changed (by rw [ht]; rfl)).elim
  case bound ht => exact (changed (by rw [ht]; rfl)).elim
  case rebound _ ht =>
    cases ht
    case inl ht => exact (changed (by rw [ht])).elim
    case inr ht => exact (changed (by rw [ht]; rfl)).elim
  case toppedUp hp => exact hp

omit [PlatformHost] in
theorem activate_begun {d : Nat} {new : Card} (h : card.activate now d = .ok new)
    (hs : card.lifecycle.Sound) (hu : card.status = .unactivated) : new.lifecycle.Begun := by
  simp only [Card.activate, hu, bind_eq_ok', exists_unit, pure_eq_ok] at h
  have hn : card.frozenFrom = none :=
    hs.frozenFrom_none (by simp [Card.lifecycle, hu, CardStatus.isOpen])
  rw [← h.right]
  exact ⟨rfl, by rintro ⟨⟩, by simp [Card.lifecycle, hn]⟩

omit [F64 F] [Host F] [PlatformHost] in
-- An activation that turns a card on is saved.
theorem Acted.turnsOn {d : Nat} (h : Acted p req card now (.ok r) e) (hd : req.action = .activate d)
    (hc : p.engine.tables.cards.lookup card.id = some card) (ht : p.engine.TurnsOn e k) :
    p.engine.Persisted e ∧ ∃ c, e.tables.cards.lookup k = some c ∧ c.lifecycle.Begun := by
  have ⟨⟨c, hl, hs, hu⟩, c', hl', hu'⟩ := ht
  cases h
  case activated ha he hp =>
    refine ⟨hp, c', hl', ?_⟩
    by_cases hk : k = card.id
    case pos =>
      rw [hk, hc, Option.some.injEq] at hl
      rw [he, hk] at hl'
      have hnew := Option.some.inj (hl'.symm.trans (lookup_insert _))
      exact hnew ▸ activate_begun ha (hl ▸ hs) (hl ▸ hu)
    case neg =>
      rw [he] at hl'
      have hl' := (lookup_insert_ne hk).symm.trans hl'
      rw [hl, Option.some.injEq] at hl'
      exact absurd (hl' ▸ hu) hu'
  all_goals simp_all

theorem Acts.persistent {p p' : Platform F} (h : Acts p p') :
    p'.engine.persistent = p.engine.persistent := by
  cases h
  case idle hp => exact hp
  case operates he => rw [he, Engine.exec_persistent]
  case issues h => exact h.persistent

-- What the platform does with orders and callbacks, whatever happened before.
structure KeepsOrders (p : Platform F) : Prop where
  refuses : ∀ {io t req now rng m p'}, p.pullCards io t req now rng = (.error m, p') →
    p.engine.Unchanged p'.engine ∧ p'.redeems = p.redeems
  issues  : ∀ {io t req now rng r p'}, p.pullCards io t req now rng = (.ok r, p') →
    if req.orderId ∈ p.engine.tables.issuanceOrders then p' = p else Issued p p' req now r
  again   : ∀ {io t req now rng r p₁ ls p₂ io' t' req' now' rng'},
    p.pullCards io t req now rng = (.ok r, p₁) → Run Step p₁ ls p₂ → req'.orderId = req.orderId →
    (p₂.pullCards io' t' req' now' rng').2 = p₂ ∧
      (req' = req → req.Fits t' → (p₂.pullCards io' t' req' now' rng').1 = .ok r)
  fails   : ∀ {io req now m p'}, p.processRedeem io req now = (.error m, p') →
    p.engine.Unchanged p'.engine
  acts    : ∀ {io req now r p'}, p.processRedeem io req now = (.ok r, p') →
    p'.engine = p.engine ∨ ∃ card, p.engine.tables.cards.lookup card.id = some card ∧
      Acted p req card now (.ok r) p'.engine
  repeats : ∀ {io req now r p₁}, p.processRedeem io req now = (.ok r, p₁) →
    ∃ c, p₁.redeems.lookup req.orderId = some c ∧
      (c.storedAt = now ∨ p.redeems.lookup req.orderId = some c) ∧
      ∀ {ls p₂ io' now'}, Run (fun p l p' => Step p l p' ∧ Spares req.orderId p l) p₁ ls p₂ →
        now' - c.storedAt < idempotencyTtlSecs →
        p₂.processRedeem io' req now' = (.ok r, { p₂ with redeems := p₂.retained now' })
  spends  : ∀ {io req now r p₁ ls p₂ io' req' now' k}, p.processRedeem io req now = (.ok r, p₁) →
    p.engine.UsesUp p₁.engine k → Run Step p₁ ls p₂ →
    ¬p₂.engine.UsesUp (p₂.processRedeem io' req' now').2.engine k
  turnsOn : ∀ {io req now r p₁ ls p₂ io' req' now' k d}, p.processRedeem io req now = (.ok r, p₁) →
    req.action = .activate d → p.engine.TurnsOn p₁.engine k → Run Step p₁ ls p₂ →
    ¬p₂.engine.TurnsOn (p₂.processRedeem io' req' now').2.engine k

theorem again_of_ready (hr : p.engine.Ready) {t t' : CardTemplate} {req req' : PullCardsRequest}
    {rng rng' : Rng} {r : PullCardsResponse} {ls : List (Event F)} {p₁ p₂ : Platform F}
    (h : p.pullCards io t req now rng = (.ok r, p₁)) (run : Run Step p₁ ls p₂)
    (hid : req'.orderId = req.orderId) : (p₂.pullCards io' t' req' now' rng').2 = p₂ ∧
      (req' = req → req.Fits t' → (p₂.pullCards io' t' req' now' rng').1 = .ok r) := by
  have ⟨⟨u, hc⟩, o, ho, hf, hread⟩ := pullCards_answered h
  have hr₁ : p₁.engine.Ready := by
    have hs : Step p ⟨.pull t req now rng, io⟩ (p.pullCards io t req now rng).2 := ⟨rfl, nofun⟩
    rw [h] at hs
    exact hs.acts.ready hr
  have ho₂ := order_lasts hr₁ ho run
  rw [← hid] at ho₂
  constructor
  case left =>
    cases hc' : req'.check t'
    case error => simp [pullCards, hc']
    case ok => rw [pullCards_known hc' ho₂]
  case right =>
    intro he hfits
    subst he
    rw [pullCards_known (check_eq_ok hc hfits) ho₂, if_pos hf, hread]
    rfl

theorem redeemed_ready {req : RedeemCallbackRequest} {r : RedeemCallbackResponse} {p₁ : Platform F}
    (hr : p.engine.Ready) (h : p.processRedeem io req now = (.ok r, p₁)) :
    p₁.engine.Ready ∧ p₁.engine.persistent = p.engine.persistent := by
  have hs : Step p ⟨.redeem req now, io⟩ (p.processRedeem io req now).2 := ⟨rfl, nofun⟩
  rw [h] at hs
  exact ⟨hs.acts.ready hr, hs.acts.persistent⟩

theorem processRedeem_eq_ok {p₁ : Platform F} (hk : p.engine.tables.Keyed)
    (h : p.processRedeem io req now = (.ok r, p₁)) : Redeeming p req now (.ok r) p₁ := by
  have hr : Redeeming p req now _ (p.processRedeem io req now).2 := processRedeem_redeeming hk
  rwa [h] at hr

theorem processRedeem_acts {p₁ : Platform F} (hk : p.engine.tables.Keyed)
    (h : p.processRedeem io req now = (.ok r, p₁)) : p₁.engine = p.engine ∨
      ∃ card, p.engine.tables.cards.lookup card.id = some card ∧
        Acted p req card now (.ok r) p₁.engine := by
  have h := processRedeem_eq_ok hk h
  cases h
  case remembered => exact .inl rfl
  case acted hc ha => exact .inr ⟨_, hc, ha⟩

omit [F64 F] [Host F] [PlatformHost] in
theorem not_usesUp_self : ¬e.UsesUp e k := by
  intro ⟨⟨c, hc, hf⟩, c', hc', hu⟩
  rw [hc, Option.some.injEq] at hc'
  rw [← hc', hf] at hu
  cases hu

-- A code's record that one callback used up, no callback uses up again.
theorem spends_of_ready {p₁ p₂ p₃ : Platform F} {ls : List (Event F)} (hr : p.engine.Ready)
    (h : p.processRedeem io req now = (.ok r, p₁)) (hu : p.engine.UsesUp p₁.engine k)
    (run : Run Step p₁ ls p₂) : ¬p₂.engine.UsesUp p₃.engine k := by
  have ⟨hr₁, hper⟩ := redeemed_ready hr h
  have hp : p.engine.Persisted p₁.engine := by
    cases processRedeem_acts hr.keyed.live h
    case inl he => exact absurd (he ▸ hu) not_usesUp_self
    case inr ha =>
      have ⟨_, _, ha⟩ := ha
      exact ha.usesUp hu
  have hs : p₁.engine.tables.Spends k := by
    have ⟨c, hc, hu⟩ := hu.right
    refine ⟨hr₁.keyed.live, fun hc' => ?_⟩
    rw [hc, Option.some.injEq] at hc'
    exact hc' ▸ hu
  have hl : p₁.engine.Lasting (Tables.Spends k) :=
    ⟨hs, fun hp' {s} hd => by rw [hp (hper ▸ hp') hd]; exact hs⟩
  have hi {t : Tables F} {cards : List Card} {id : String} {o : IssuanceOrder} (h : t.Spends k) :
      ((t.putCards cards).withOrder id o).Spends k := by
    refine ⟨Tables.withOrder_keyed h.keyed, ?_⟩
    have ⟨cs, he⟩ := Tables.putCards_eq t cards
    rw [he]
    exact fun {c} hc => h.code hc
  have hs₂ := (lasts (·.keyed) (fun h hs => hs.spends h) (fun _ _ => hi) run hl).live
  intro ⟨⟨c, hc, hf⟩, _⟩
  rw [hs₂.code hc] at hf
  cases hf

omit [F64 F] [Host F] [PlatformHost] in
theorem not_turnsOn_self : ¬e.TurnsOn e k := by
  intro ⟨⟨c, hc, _, hu⟩, c', hc', hn⟩
  rw [hc, Option.some.injEq] at hc'
  exact hn (hc' ▸ hu)

-- A card that one callback activated, no callback activates again.
theorem turnsOn_of_ready {p₁ p₂ p₃ : Platform F} {ls : List (Event F)} {d : Nat}
    (hr : p.engine.Ready) (h : p.processRedeem io req now = (.ok r, p₁))
    (hd : req.action = .activate d) (ht : p.engine.TurnsOn p₁.engine k) (run : Run Step p₁ ls p₂) :
    ¬p₂.engine.TurnsOn p₃.engine k := by
  have ⟨hr₁, hper⟩ := redeemed_ready hr h
  have ⟨hp, c, hc, hb⟩ : p.engine.Persisted p₁.engine ∧
      ∃ c, p₁.engine.tables.cards.lookup k = some c ∧ c.lifecycle.Begun := by
    cases processRedeem_acts hr.keyed.live h
    case inl he => exact absurd (he ▸ ht) not_turnsOn_self
    case inr ha =>
      have ⟨_, hc, ha⟩ := ha
      exact ha.turnsOn hd hc ht
  have hs : p₁.engine.tables.Begins k := ⟨hr₁.keyed.live, c, hc, hb⟩
  have hl : p₁.engine.Lasting (Tables.Begins k) :=
    ⟨hs, fun hp' {s} hd => by rw [hp (hper ▸ hp') hd]; exact hs⟩
  have hi {t : Tables F} {cards : List Card} {id : String} {o : IssuanceOrder}
      (hn : ∀ c ∈ cards, c.id ∉ t.cards) (h : t.Begins k) :
      ((t.putCards cards).withOrder id o).Begins k := by
    have ⟨c, hc, hb⟩ := h.card
    refine ⟨Tables.withOrder_keyed h.keyed, c, ?_, hb⟩
    have hk : k ∉ cards.map (·.id) := by
      intro hm
      have ⟨c', hc', he⟩ := List.mem_map.mp hm
      exact hn c' hc' (he ▸ mem_of_lookup hc)
    exact (Tables.lookup_putCards hk).trans hc
  have ⟨c₂, hc₂, hb₂⟩ := (lasts (·.keyed) (fun h hs => hs.begins h) (fun hn _ => hi hn) run hl).live.card
  intro ⟨⟨c, hc, _, hu⟩, _⟩
  rw [hc₂, Option.some.injEq] at hc
  exact hb₂.status (hc ▸ hu)

theorem repeats_of_ready {p₁ : Platform F} (hr : p.engine.Ready)
    (h : p.processRedeem io req now = (.ok r, p₁)) :
    ∃ c, p₁.redeems.lookup req.orderId = some c ∧
      (c.storedAt = now ∨ p.redeems.lookup req.orderId = some c) ∧
      ∀ {ls p₂ io' now'}, Run (fun p l p' => Step p l p' ∧ Spares req.orderId p l) p₁ ls p₂ →
        now' - c.storedAt < idempotencyTtlSecs →
        p₂.processRedeem io' req now' = (.ok r, { p₂ with redeems := p₂.retained now' }) := by
  have hb : Text.isBlank req.orderId = false := by
    rw [← Bool.not_eq_true]
    intro hb
    rw [processRedeem, if_pos hb] at h
    cases h
  have hr₁ := (redeemed_ready hr h).left
  have answer {c : CachedRedeem} (hc : p₁.redeems.lookup req.orderId = some c)
      (hf : c.fingerprint = fingerprintOf req) {ls p₂ io' now'}
      (run : Run (fun p l p' => Step p l p' ∧ Spares req.orderId p l) p₁ ls p₂)
      (ht : now' - c.storedAt < idempotencyTtlSecs) : p₂.processRedeem io' req now' =
        (.ok c.response, { p₂ with redeems := p₂.retained now' }) :=
    processRedeem_remembered hb (lookup_retained.mpr ⟨remembered_run run hr₁ hc, ht⟩) hf
  have hend := processRedeem_eq_ok hr.keyed.live h
  cases hend
  case remembered c hl hf =>
    exact ⟨c, hl, .inr (lookup_retained.mp hl).left, answer hl hf⟩
  case acted =>
    exact ⟨_, lookup_insert _, .inl rfl, answer (lookup_insert _) rfl⟩

theorem orders_kept {p₀ : Platform F} {ls : List (Event F)} (run : Run Step p₀ ls p)
    (h₀ : p₀.engine.Ready) : p.KeepsOrders := by
  have hr := ready_run run h₀
  constructor
  case refuses =>
    intro io t req now rng m p' h
    have hp := pullCards_eq h
    generalize he : Except.error m = a at hp
    cases hp
    case refused hu _ hm _ => exact ⟨hu, hm⟩
    case replayed => exact ⟨⟨rfl, rfl⟩, rfl⟩
    case issued => cases he
  case issues =>
    intro io t req now rng r p' h
    have hp := pullCards_eq h
    generalize he : Except.ok r = a at hp
    cases hp
    case refused => cases he
    case replayed hl _ => rw [if_pos (mem_of_lookup hl)]
    case issued hi =>
      cases he
      rw [if_neg hi.new]
      exact hi
  case again => exact fun h run hid => again_of_ready hr h run hid
  case fails =>
    intro io req now m p' h
    have hend : Redeeming p req now _ (p.processRedeem io req now).2 :=
      processRedeem_redeeming hr.keyed.live
    rw [h] at hend
    cases hend
    case refused hu _ => exact hu
  case acts => exact fun h => processRedeem_acts hr.keyed.live h
  case repeats => exact fun h => repeats_of_ready hr h
  case spends => exact fun h hu run => spends_of_ready hr h hu run
  case turnsOn => exact fun h hd ht run => turnsOn_of_ready hr h hd ht run

end Platform

section Sample

open Csv

def cell (s : String) : Cell := ⟨.ofList (quote s.toList), s, s = s⟩

theorem cell_lawful (s : String) : (cell s).Lawful :=
  lawful_quoted (String.toList_ofList) s

-- A response as a table whose first line is the order's and whose others are its cards'.
def responseLines (r : PullCardsResponse) : List (List Cell × String) :=
  ([cell r.orderId], toString r.dispensedAt) :: r.cards.map fun d =>
    ([cell d.cardId, cell d.rawCode, cell d.groupId, cell d.status.encoded],
      toString d.initialCredits.val)

def readStatus (s : String) : Option CardStatus :=
  [.unactivated, .active, .frozen, .banned, .expired, .voided].find? (·.encoded = s)

def readItem : List String → Option DispensedCardItem
  | [cardId, rawCode, groupId, status, credits] => do
    return ⟨cardId, rawCode, groupId, .sat (← credits.toInt?), ← readStatus status⟩
  | _ => none

def readLines : List (List String) → Option PullCardsResponse
  | [orderId, time] :: items => do return ⟨orderId, ← items.mapM readItem, ← time.toNat?⟩
  | _                        => none

theorem readItem_line (d : DispensedCardItem) :
    readItem [d.cardId, d.rawCode, d.groupId, d.status.encoded, toString d.initialCredits.val] =
      some d := by
  have hs : readStatus d.status.encoded = some d.status := by
    cases d.status <;> decide
  simp [readItem, hs]

theorem mapM_readItem (ds : List DispensedCardItem) : (ds.map fun d => [d.cardId, d.rawCode, d.groupId,
    d.status.encoded, toString d.initialCredits.val]).mapM readItem = some ds := by
  induction ds
  case nil => rfl
  case cons d ds hi =>
    rw [List.map_cons, List.mapM_cons, readItem_line, hi]
    rfl

theorem readLines_lines (r : PullCardsResponse) :
    readLines ((responseLines r).map fun l => l.1.map (·.text) ++ [l.2]) = some r := by
  have ht : (toString r.dispensedAt).toNat? = some r.dispensedAt := by simp
  have h : readLines ((responseLines r).map fun l => l.1.map (·.text) ++ [l.2]) = (do
      return ⟨r.orderId, ← (r.cards.map fun d => [d.cardId, d.rawCode, d.groupId, d.status.encoded,
        toString d.initialCredits.val]).mapM readItem, ← (toString r.dispensedAt).toNat?⟩) := by
    simp only [responseLines, List.map_cons, List.map_map]
    rfl
  rw [h, mapM_readItem, ht]
  rfl

instance : PlatformHost where
  encrypt             := some
  debugText           := Json.quote
  responseJson r      := .ofList <| (responseLines r).flatMap fun l =>
    (line (l.1.map (·.written) ++ [l.2])).toList
  readResponse s      := (parse s).bind readLines
  read_responseJson r := by
    have hl : ∀ l ∈ responseLines r, (∀ c ∈ l.1, c.Lawful) ∧ ∀ c ∈ l.2.toList, isText c := by
      refine List.forall_mem_cons.mpr ⟨?_, List.forall_mem_map.mpr fun d _ => ?_⟩
      · exact ⟨by simp [cell_lawful], isText_nat _⟩
      · exact ⟨by simp [cell_lawful], isText_number _⟩
    rw [parse, String.toList_ofList, (parse_lines hl).mpr]
    · exact readLines_lines r
    · simp [responseLines, cell]

end Sample

def CardTemplate.sample : CardTemplate where
  id           := "template-1"
  name         := "Month"
  durationSecs := 2592000
  creditTotal  := .sat 50000000
  groupId      := "default"

def PullCardsRequest.sample : PullCardsRequest where
  orderId := "order-1"
  count   := 2

def RedeemCallbackRequest.sample : RedeemCallbackRequest where
  orderId      := "order-2"
  cardCodeOrId := "card-1"
  action       := .topup "code"

def Platform.sample : Platform ℚ where
  engine := { Engine.renewable with masterKek := true }

theorem Platform.sample_ready : Platform.sample.engine.Ready where
  keyed        := ⟨renewable_started.fresh.keyed, fun h => by simp [sample, Engine.renewable] at h⟩
  orders _ _ h := by simp [sample, Engine.renewable] at h

def Rng.counting : Rng := fun i => some fun j => .ofNat (16 * i + j)

-- An order and a callback, each asked for twice.
theorem Platform.orders_kept_shop :
    let p := Platform.sample
    let pulled := p.pullCards {} .sample .sample 10 .counting
    let redeemed := p.processRedeem {} .sample 10
    (∃ r, pulled.1 = .ok r ∧ Issued p pulled.2 .sample 10 r ∧
      (pulled.2.pullCards {} .sample .sample 86410 fun _ => none).1 = .ok r) ∧
    ∃ r, redeemed.1 = .ok r ∧ (redeemed.2.processRedeem {} .sample 86409).1 = .ok r := by
  intro p pulled redeemed
  have hp := orders_kept (.nil : Run Step p [] p) sample_ready
  have hn : p.engine.tables.issuanceOrders.lookup "order-1" = none := by decide +kernel
  have hc : PullCardsRequest.sample.check .sample = .ok () := by decide +kernel
  have ht : (p.engine.transact {} (p.engine.tables.fulfillCardOrder "order-1"
      PullCardsRequest.sample.fingerprint
      (generateOrder ℚ true .sample .sample 10 .counting))).1.isOk := by decide +kernel
  have hr : redeemed.1.isOk := by decide +kernel
  constructor
  case left =>
    have ⟨r, h⟩ : ∃ r, pulled.1 = .ok r := pullCards_isOk hc hn ht
    have h : p.pullCards {} .sample .sample 10 .counting = (.ok r, pulled.2) := Prod.ext h rfl
    have hno : PullCardsRequest.sample.orderId ∉ p.engine.tables.issuanceOrders :=
      lookup_eq_none.mp hn
    have hi := hp.issues h
    rw [if_neg hno] at hi
    exact ⟨r, congrArg (·.1) h, hi, (hp.again h .nil rfl).right rfl ⟨nofun, nofun⟩⟩
  case right =>
    have ⟨r, h⟩ := exists_of_isOk hr
    have h : p.processRedeem {} .sample 10 = (.ok r, redeemed.2) := Prod.ext h rfl
    have ⟨c, _, ht, ha⟩ := hp.repeats h
    have ht : c.storedAt = 10 := ht.resolve_right nofun
    exact ⟨r, congrArg (·.1) h, congrArg (·.1) (ha .nil (by rw [ht]; decide))⟩

-- A process that's told of a top-up again a day later knows of it no more.
theorem Platform.callback_forgotten : ¬∀ (p₀ p₁ : Platform ℚ) req now r, p₀.engine.Ready →
    p₀.processRedeem {} req now = (.ok r, p₁) → ∀ ls p₂, Run Step p₁ ls p₂ → ∀ now',
      (p₂.processRedeem {} req now').1 = .ok r := by
  intro h
  have hr : (Platform.sample.processRedeem {} .sample 10).1.isOk := by decide +kernel
  have hf : ((Platform.sample.processRedeem {} .sample 10).2.processRedeem {} .sample 86410).1.isOk =
    false := by decide +kernel
  have ⟨r, he⟩ := exists_of_isOk hr
  have he' := h _ _ _ _ r sample_ready (Prod.ext he rfl) [] _ .nil 86410
  rw [he'] at hf
  cases hf

end Billing
