import Superkiro.Billing.Adjustments
import Superkiro.Billing.Process

namespace Billing

open F64 Except Host

-- The ids that the adjustments among some entries are recorded under.
def adjustmentIds (es : List (LedgerEntry F)) : List String :=
  (es.filter (·.kind = .adjustment)).filterMap (·.invocationId)

-- The ids of the adjustments that an operation records when it is not refused.
def Op.adjustmentIds [Host F] (t : Tables F) : Op F → List String
  | .extendValidity cardIds _ _ _ now =>
    ((cardIds.foldl pushNew []).zipIdx t.ledger.length).map fun (cardId, n) =>
      eventId "extend_validity" cardId now n
  | .renewWithCard _ code _           =>
    (t.cards.values.find? (·.codeHash = hashCardCode F (Text.trim code))).toList.map
      ("renew-" ++ ·.id)
  | op                                => (op.entryId t).toList

-- Whether an operation can make up for requests.
def Op.adjusts : Op F → Bool
  | .adjustCardBalance _ => true
  | _                    => false

-- Operations that record entries, if anything: they neither archive nor start the engine again.
def Op.appends : Op F → Bool
  | .archiveLedger _ | .restart | .reload => false
  | _                                     => true

section

variable [F64 F] [Host F] {t t' c : Tables F} {op : Op F} {es : List (LedgerEntry F)}
variable {entry : LedgerEntry F} {id : String}

-- Some entries are recorded.
structure Appends (t : Tables F) (op : Op F) (es : List (LedgerEntry F)) (t' : Tables F) :
    Prop where
  ledger   : t'.ledger = t.ledger ++ es
  archived : t'.archivedLedgerSummary.adjustments = t.archivedLedgerSummary.adjustments
  named    : ∀ e ∈ es, e.kind = .adjustment → e.invocationId.isSome
  ids      : (adjustmentIds es).Sublist (op.adjustmentIds t)
  plain    : ∀ e ∈ es, isCompensation (parseJson F) e → op.adjusts

namespace Appends

omit [F64 F] in
theorem nil (hl : t'.ledger = t.ledger)
    (ha : t'.archivedLedgerSummary.adjustments = t.archivedLedgerSummary.adjustments) :
    Appends t op [] t' :=
  ⟨by simp [hl], ha, by simp, by simp [adjustmentIds], by simp⟩

omit [F64 F] in
theorem usage (hk : entry.kind = .usage) (hl : t'.ledger = t.ledger ++ [entry])
    (ha : t'.archivedLedgerSummary.adjustments = t.archivedLedgerSummary.adjustments) :
    Appends t op [entry] t' :=
  ⟨hl, ha, by simp [hk], by simp [adjustmentIds, hk], by simp [isCompensation, hk]⟩

omit [F64 F] in
theorem adjustment (hi : entry.invocationId = some id) (hm : id ∈ op.adjustmentIds t)
    (hl : t'.ledger = t.ledger ++ [entry])
    (ha : t'.archivedLedgerSummary.adjustments = t.archivedLedgerSummary.adjustments)
    (hc : isCompensation (parseJson F) entry → op.adjusts) : Appends t op [entry] t' where
  ledger   := hl
  archived := ha
  named    := by simp [hi]
  ids      := by
    by_cases hk : entry.kind = .adjustment
    case pos => simpa [adjustmentIds, hk, hi] using hm
    case neg => simp [adjustmentIds, hk]
  plain    := by simpa using hc

omit [F64 F] in
-- What is recorded isn't changed by remembering the template invocations charged.
theorem normalized (h : Appends t op es c) (hn : normalize t c = .ok n) : Appends t op es n := by
  cases normalize_cases hn
  case inl hn => exact hn.right ▸ h
  case inr hn =>
    have ⟨_, hn, _⟩ := hn
    subst hn
    exact ⟨h.ledger, h.archived, h.named, h.ids, h.plain⟩

end Appends

-- A transaction that publishes what it saves, and saves the tables with some entries recorded.
structure Recording (t : Tables F) (op : Op F) (txn : Result (Txn F α)) : Prop where
  publishes : Engine.Publishes t txn
  appends   : ∀ {c pub a}, txn = .ok (.write c pub a) → ∃ es, Appends t op es c

theorem Recording.of_replace {txn : Result (Txn F α)} (h : Replaces t op txn) :
    Recording t op txn where
  publishes := (Commits.of_replace h).publishes
  appends he := by
    have ⟨_, _, _, _, hw, _⟩ := h he
    cases hw
    exact ⟨[], .nil rfl rfl⟩

theorem Recording.of_post {txn : Result (Txn F Card)} (h : Posts t op txn)
    (hm : ∀ {k}, op.Records t k → k ∈ op.adjustmentIds t) : Recording t op txn where
  publishes := (Commits.of_post h).publishes
  appends he := by
    have ⟨_, _, _, _, hw, hr, hi, hc, _⟩ := h he
    cases hw
    exact ⟨_, .adjustment hi (hm hr) rfl rfl (by simp [hc])⟩

theorem extendReservation_recording :
    Recording t (.extendReservation id amount now) (t.extendReservation id amount now) where
  publishes  := extendReservation_commits.publishes
  appends he := by
    have ⟨_, _, _, _, _, _, _, _, h⟩ := extendReservation_eq_ok he
    cases h
    exact ⟨[], .nil rfl rfl⟩

theorem publishCommercialConfig_recording {u : CommercialUpdate F} :
    Recording t (.publishCommercialConfig u now) (Commercial.publishCommercialConfig t u now) where
  publishes  := publishCommercialConfig_commits.publishes
  appends he := by
    have ⟨_, hp⟩ := Commercial.publish_cases he
    rw [hp.configured]
    exact ⟨[], .nil rfl rfl⟩

theorem consumeRefreshToken_recording :
    Recording t (.consumeRefreshToken jti expires now)
      (t.consumeRefreshToken jti expires now) where
  publishes  := consumeRefreshToken_commits.publishes
  appends he := by
    simp only [Tables.consumeRefreshToken, bind_eq_ok', exists_unit, pure_eq_ok] at he
    obtain ⟨_, _, he⟩ := he
    cases he
    exact ⟨[], .nil rfl rfl⟩

theorem rotateRefresh_recording :
    Recording t (.rotateRefresh cardId presented jti expires now grace)
      (t.rotateRefresh cardId presented jti expires now grace) where
  publishes  := rotateRefresh_commits.publishes
  appends he := by
    simp only [Tables.rotateRefresh, bind_eq_ok', exists_unit, pure_eq_ok, getCard_eq_ok] at he
    obtain ⟨_, _, _, _, _, he⟩ := he
    split at he
    case isFalse => cases he
    case isTrue =>
      cases he
      exact ⟨[], .nil rfl rfl⟩

theorem runJanitor_recording (active : Table String Nat) (now : Nat) (hk : t.Keyed) :
    Recording t (.runJanitor now) (t.runJanitor active now) where
  publishes  := (runJanitor_commits active now hk).publishes
  appends he := by
    simp only [Tables.runJanitor] at he
    split at he
    case isTrue => cases he
    case isFalse =>
      cases he
      exact ⟨[], .nil rfl rfl⟩

theorem retryPendingSettlement_recording :
    Recording t (.retryPendingSettlement id) (t.retryPendingSettlement id) where
  publishes  := retryPendingSettlement_commits.publishes
  appends he := by
    unfold Tables.retryPendingSettlement at he
    split at he
    case h_1 => cases he
    case h_2 =>
      simp only [bind_eq_ok', ofOption_eq_ok] at he
      have ⟨p, hp, he⟩ := he
      have ⟨_, _, hd, he⟩ := completePendingSettlement_eq_ok hp he
      cases he
      exact ⟨_, .usage hd.usage rfl rfl⟩

theorem publishTemplates_recording {e : Engine F} :
    Recording e.tables (.publishResponseTemplates u now) (e.publishTemplates u now) where
  publishes  := publishTemplates_commits.publishes
  appends he := by
    simp only [Engine.publishTemplates, bind_eq_ok', exists_unit, pure_eq_ok] at he
    obtain ⟨_, _, _, _, he⟩ := he
    cases he
    exact ⟨[], .nil rfl rfl⟩

omit [F64 F] in
theorem Chargeable.usage {card : Card} {r : ResponseTemplateReceipt}
    (h : Chargeable t card entry r) : entry.kind = .usage := by
  have ⟨_, _, he⟩ := h.billed
  rw [he]
  rfl

theorem templateCharge_recording {e : Engine F} {r : ResponseTemplateReceipt} :
    Recording e.tables (.chargeResponseTemplate revision ruleId modelId r now)
      (e.templateCharge revision ruleId modelId r now) where
  publishes  := templateCharge_commits.publishes
  appends he := by
    have ⟨_, _, _, hc, he⟩ := templateCharge_eq_ok he
    cases he
    exact ⟨_, .usage hc.chargeable.usage rfl rfl⟩

theorem redeemTopup_recording {hash : String → String} (hk : t.Keyed) :
    Recording t (.redeemTopup cardId code now operator)
      (t.redeemTopup hash cardId code now operator) where
  publishes  := (redeemTopup_commits hk).publishes
  appends he := by
    simp only [Tables.redeemTopup, bind_eq_ok', exists_unit, pure_eq_ok, getCard_eq_ok,
      ofOption_eq_ok] at he
    obtain ⟨⟨_, used⟩, _, _, _, _, _, he⟩ := he
    cases he
    refine ⟨[_], rfl, rfl, ?_, ?_, ?_⟩
    all_goals simp [adjustmentIds, Tables.topupEntry, isCompensation]

-- The first entry of a renewal is a top-up, and the second takes what the first gives.
theorem renewWithCard_recording (hk : t.Keyed) :
    Recording t (.renewWithCard cardId code now)
      (t.renewWithCard (hashCardCode F) cardId code now) where
  publishes  := (renewWithCard_commits hk).publishes
  appends he := by
    simp only [Tables.renewWithCard, bind_eq_ok', exists_unit, pure_eq_ok, getCard_eq_ok,
      ofOption_eq_ok, ensure_eq_ok, Bool.and_eq_true, decide_eq_true_eq] at he
    obtain ⟨source, hf, ⟨_, hpos⟩, _, _, _, _, _, he⟩ := he
    cases he
    have hpos : 0 < source.creditTotal.val := hpos
    have hneg : ¬ 0 < source.creditTotal.satNeg := mt I64.lt_def.mp (by simp; omega)
    refine ⟨[_, _], rfl, rfl, ?_, ?_, ?_⟩
    · simp [renewalEntry, renewalDebit]
    · simp [adjustmentIds, Op.adjustmentIds, renewalEntry, renewalDebit, hf]
    · simp [isCompensation, renewalEntry, renewalDebit, hneg]

omit [F64 F] [Host F] in
theorem adjustmentIds_sublist : (adjustmentIds es).Sublist (es.filterMap (·.invocationId)) :=
  List.filter_sublist.filterMap _

omit [F64 F] [Host F] in
-- Each card is extended by an entry of its own.
theorem foldlM_extendOne {ids : List String} {s s' : Tables.Extended F}
    (h : ids.foldlM (Tables.extendOne x operator reason now) s = .ok s') :
    ∃ es, s'.tables.ledger = s.tables.ledger ++ es ∧
      s'.tables.archivedLedgerSummary = s.tables.archivedLedgerSummary ∧
      es.map (·.invocationId) = (ids.zipIdx s.tables.ledger.length).map (fun (cardId, n) =>
        some (eventId "extend_validity" cardId now n)) ∧
      ∀ e ∈ es, ∀ parse, isCompensation parse e = false := by
  induction ids generalizing s
  case nil =>
    cases h
    exact ⟨[], by simp, rfl, rfl, by simp⟩
  case cons id ids hi =>
    have ⟨s₁, h₁, h⟩ := bind_eq_ok'.mp h
    have ⟨card, entry, _, h₁, _, _, _, hid, hc⟩ := extendOne_cases h₁
    subst h₁
    have ⟨es, hl, ha, hids, hes⟩ := hi h
    refine ⟨entry :: es, by simpa [Tables.withCard] using hl, ha, ?_, by simpa [hc] using hes⟩
    simpa [hid, Tables.withCard] using hids

theorem extendValidity_recording (hk : t.Keyed) :
    Recording t (.extendValidity cardIds x operator reason now)
      (t.extendValidity cardIds x operator reason now) where
  publishes  := (extendValidity_commits hk).publishes
  appends he := by
    simp only [Tables.extendValidity, bind_eq_ok', exists_unit, pure_eq_ok] at he
    obtain ⟨_, _, _, _, s, hs, he⟩ := he
    cases he
    obtain ⟨es, hl, ha, hids, hes⟩ := foldlM_extendOne hs
    refine ⟨es, hl, by rw [ha], fun e he _ => ?_, ?_, by simp_all⟩
    · have hm : e.invocationId ∈ es.map (·.invocationId) := List.mem_map_of_mem he
      rw [hids] at hm
      obtain ⟨_, _, hm⟩ := List.mem_map.mp hm
      simp [←hm]
    · have h : es.filterMap (·.invocationId) =
          Op.adjustmentIds t (.extendValidity cardIds x operator reason now) := by
        have h : es.filterMap (·.invocationId) = (es.map (·.invocationId)).filterMap id := by
          simp [List.filterMap_map]
        rw [h, hids]
        simp [Op.adjustmentIds, List.filterMap_map]
      exact h ▸ adjustmentIds_sublist

theorem adjustCardBalance_recording (index : CompensationIndex)
    (archives : List (List (LedgerEntry F))) (a : BalanceAdjustment) :
    Recording t (.adjustCardBalance a)
      (t.adjustCardBalance (parseJson F) index archives a) where
  publishes  := (adjustCardBalance_commits (parseJson F) index archives a).publishes
  appends he := by
    cases (adjustCardBalance_eq_ok.mp he).right
    exact ⟨_, .adjustment rfl (by simp [Op.adjustmentIds, Op.entryId]) rfl rfl fun _ => rfl⟩

end

namespace Engine

section

variable [F64 F] [Host F] {e : Engine F} {io : Io} {op : Op F} {es : List (LedgerEntry F)}
variable {id : String}

-- Some entries are recorded, and counted towards the compensations of requests.
structure Appended (e : Engine F) (op : Op F) (es : List (LedgerEntry F)) (e' : Engine F) : Prop where
  appends       : Appends e.tables op es e'.tables
  compensations : e'.compensations = es.foldl (·.add (parseJson F)) e.compensations

omit [F64 F] in
theorem foldl_add_plain {i : CompensationIndex} (h : ∀ x ∈ es, isCompensation (parseJson F) x = false) :
    es.foldl (·.add (parseJson F)) i = i := by
  induction es
  case nil => rfl
  case cons x es hi =>
    simp only [List.foldl_cons, CompensationIndex.add, h x (by simp), Bool.false_eq_true, if_false]
    exact hi fun y hy => h y (by simp [hy])

omit [F64 F] in
theorem Appended.of_plain (hop : op.adjusts = false) {e' : Engine F}
    (h : Appends e.tables op es e'.tables) (hc : e'.compensations = e.compensations) :
    Appended e op es e' := by
  refine ⟨h, hc.trans (foldl_add_plain fun x hx => ?_).symm⟩
  have := h.plain x hx
  simp_all

omit [F64 F] in
theorem Appended.refl (ht : e'.tables = e.tables) (hc : e'.compensations = e.compensations) :
    Appended e op [] e' :=
  ⟨.nil (by rw [ht]) (by rw [ht]), hc⟩

omit [F64 F] in
theorem transact_appends {txn : Result (Txn F α)} (h : Recording e.tables op txn) :
    ∃ es, Appends e.tables op es (e.transact io txn).2.tables := by
  have ht := transact_cases io h.publishes
  generalize (e.transact io txn).1 = r at ht
  generalize (e.transact io txn).2 = e' at ht ⊢
  cases ht
  case refused => exact ⟨[], .nil rfl rfl⟩
  case answered => exact ⟨[], .nil rfl rfl⟩
  case unsaved hu => exact ⟨[], .nil (by rw [hu.tables]) (by rw [hu.tables])⟩
  case committed hc =>
    have ⟨es, ha⟩ := h.appends rfl
    exact ⟨es, ha.normalized hc.normalized⟩

omit [F64 F] in
theorem transact_appended {txn : Result (Txn F α)} (hop : op.adjusts = false)
    (h : Recording e.tables op txn) : ∃ es, Appended e op es (e.transact io txn).2 := by
  have ⟨es, ha⟩ : ∃ es, Appends e.tables op es (e.transact io txn).2.tables := transact_appends h
  exact ⟨es, .of_plain hop ha (congrArg Process.compensations transact_process)⟩

theorem settle_appended :
    ∃ es, Appended e (.settle id tokens exposed provider target now) es
      (e.settle io id tokens exposed provider target now).2 := by
  have hc : (e.settle io id tokens exposed provider target now).2.compensations = e.compensations :=
    congrArg Process.compensations settle_process
  have h : Settling e io id (e.settle io id tokens exposed provider target now).1 _ := settle_cases
  generalize (e.settle io id tokens exposed provider target now).1 = r at h
  generalize (e.settle io id tokens exposed provider target now).2 = e' at h hc ⊢
  cases h
  case refused => exact ⟨[], .refl rfl rfl⟩
  case debited hd hcom =>
    have ht := hcom.tables_eq rfl
    exact ⟨_, .of_plain rfl (.usage hd.usage (by rw [ht]; rfl) (by rw [ht]; rfl)) hc⟩
  case failed hu => exact ⟨[], .refl hu.tables hc⟩
  case pending hcom =>
    have ht := hcom.tables_eq rfl
    exact ⟨[], .of_plain rfl (.nil (by rw [ht]; rfl) (by rw [ht]; rfl)) hc⟩
  case unsaved hu =>
    exact ⟨[], .of_plain rfl (.nil (by rw [hu.tables]; rfl) (by rw [hu.tables]; rfl)) hc⟩

-- The ways adjusting a balance ends: refused or not saved, answered with what was recorded before, or
-- committed.
inductive Adjusting (e : Engine F) (io : Io) (a : BalanceAdjustment) :
    Result (LedgerEntry F) → Engine F → Prop
  | refused {e' : Engine F} :
    e.Unchanged e' → e'.compensations = e.compensations → Adjusting e io a (.error err) e'
  | replayed {entry : LedgerEntry F} :
    a.Valid → a.idempotencyKey = some key → e.tables.adjustmentUnder key = some entry →
    a.IsReplay (parseJson F) entry → Adjusting e io a (.ok entry) e
  | adjusted {card card' : Card} {e' : Engine F} :
    a.Valid → a.idempotencyKey.bind e.tables.adjustmentUnder = none →
    checkRequests e.tables e.compensations a a.distinct (a.charged e.tables e.archives) = .ok () →
    e.tables.cards.lookup a.cardId = some card →
    card.adjusted a.deltaMicroCredits = .ok card' →
    e.Committed io (e.tables.withCard a.cardId card' [a.entry e.tables e.archives]) e' →
    e'.compensations = e.compensations →
    Adjusting e io a (.ok (a.entry e.tables e.archives)) { e' with
      compensations := e'.compensations.add (parseJson F) (a.entry e.tables e.archives) }

theorem adjustCardBalance_cases {a : BalanceAdjustment} :
    Adjusting e io a (e.adjustCardBalance io a).1 (e.adjustCardBalance io a).2 := by
  have ht : Transacted e io (e.tables.adjustCardBalance (parseJson F) e.compensations e.archives a)
      _ _ :=
    transact_cases io (adjustCardBalance_commits (parseJson F) e.compensations e.archives a).publishes
  have hc : (e.transact io (e.tables.adjustCardBalance (parseJson F) e.compensations e.archives
      a)).2.compensations = e.compensations := congrArg Process.compensations transact_process
  have hgo {txn} (h : e.tables.adjustCardBalance (parseJson F) e.compensations e.archives a =
      .ok txn) := adjustCardBalance_eq_ok.mp h
  simp only [adjustCardBalance]
  generalize e.tables.adjustCardBalance (parseJson F) e.compensations e.archives a = txn
    at ht hc hgo ⊢
  cases txn
  case error => exact .refused ⟨rfl, rfl⟩ rfl
  case ok txn =>
    obtain ⟨hv, h⟩ := hgo rfl
    cases h
    case replay hk hu hr => exact .replayed hv hk hu hr
    case adjust hn hreq hf _ ha =>
      generalize e.transact io _ = r at ht hc ⊢
      obtain ⟨r, e'⟩ := r
      cases ht
      case unsaved hu => exact .refused hu hc
      case committed hcom => exact .adjusted hv hn hreq hf ha hcom hc

theorem adjustCardBalance_appended {a : BalanceAdjustment} :
    ∃ es, Appended e (.adjustCardBalance a) es (e.adjustCardBalance io a).2 := by
  have h : Adjusting e io a _ (e.adjustCardBalance io a).2 := adjustCardBalance_cases
  generalize (e.adjustCardBalance io a).1 = r at h
  generalize (e.adjustCardBalance io a).2 = e' at h ⊢
  cases h
  case refused hu hc => exact ⟨[], .refl hu.tables hc⟩
  case replayed => exact ⟨[], .refl rfl rfl⟩
  case adjusted card card' e' _ _ _ _ _ hcom hc =>
    have ht := hcom.tables_eq rfl
    refine ⟨[a.entry e.tables e.archives], ?_, by simp [hc]⟩
    exact .adjustment rfl (by simp [Op.adjustmentIds, Op.entryId]) (by rw [ht]; rfl) (by rw [ht]; rfl) fun _ => rfl

theorem exec_appended (hk : e.tables.Keyed) (hop : op.appends) :
    ∃ es, Appended e op es (e.exec io op) := by
  cases op <;> simp only [exec]
  case reserve =>
    simp only [reserve]
    split
    case h_1 => exact ⟨[], .refl rfl rfl⟩
    case h_2 => exact ⟨[], .of_plain rfl (.nil rfl rfl) rfl⟩
  case extendReservation => exact transact_appended rfl extendReservation_recording
  case settle => exact settle_appended
  case retryPendingSettlement => exact transact_appended rfl retryPendingSettlement_recording
  case release id =>
    obtain ⟨_, ht⟩ : (e.release id).2.disk = e.disk ∧ _ := release_disk e
    have hc : (e.exec io (.release id)).compensations = _ :=
      congrArg Process.compensations (exec_process (by simp [Op.isLocal]))
    exact ⟨[], .of_plain rfl (.nil (by rw [ht]) (by rw [ht])) hc⟩
  case runJanitor now =>
    have h : ∃ es, Appended e (.runJanitor now) es
        (e.transact io (e.tables.runJanitor e.activeReservations now)).2 :=
      transact_appended rfl (runJanitor_recording e.activeReservations now hk)
    simp only [runJanitor]
    split
    case h_1 he | h_2 he =>
      rw [he] at h
      exact h
  case chargeResponseTemplate => exact transact_appended rfl templateCharge_recording
  case publishResponseTemplates => exact transact_appended rfl publishTemplates_recording
  case freezeCard => exact transact_appended rfl (.of_post freezeCard_posts Option.mem_toList.mpr)
  case unfreezeCard =>
    exact transact_appended rfl (.of_post unfreezeCard_posts Option.mem_toList.mpr)
  case banCard => exact transact_appended rfl (.of_post banCard_posts Option.mem_toList.mpr)
  case unbanCard => exact transact_appended rfl (.of_post unbanCard_posts Option.mem_toList.mpr)
  case voidCard => exact transact_appended rfl (.of_post voidCard_posts Option.mem_toList.mpr)
  case changeCardGroup =>
    exact transact_appended rfl (.of_post changeCardGroup_posts Option.mem_toList.mpr)
  case extendValidity => exact transact_appended rfl (extendValidity_recording hk)
  case adjustCardBalance => exact adjustCardBalance_appended
  case redeemTopup => exact transact_appended rfl (redeemTopup_recording hk)
  case renewWithCard => exact transact_appended rfl (renewWithCard_recording hk)
  case upgradeCard => exact transact_appended rfl (.of_post upgradeCard_posts Option.mem_toList.mpr)
  case publishCommercialConfig => exact transact_appended rfl publishCommercialConfig_recording
  case activateCard => exact transact_appended rfl (.of_replace activateCard_replaces)
  case activateCardWithDevice =>
    exact transact_appended rfl (.of_replace activateCardWithDevice_replaces)
  case bindDevice => exact transact_appended rfl (.of_replace bindDevice_replaces)
  case unbindDevice => exact transact_appended rfl (.of_replace unbindDevice_replaces)
  case adminUnbindDevice =>
    exact transact_appended rfl (.of_post adminUnbindDevice_posts Option.mem_toList.mpr)
  case resetRebinds => exact transact_appended rfl (.of_post resetRebinds_posts Option.mem_toList.mpr)
  case rekeyCard => exact transact_appended rfl (.of_post rekeyCard_posts Option.mem_toList.mpr)
  case setCardCodeHash => exact transact_appended rfl (.of_replace setCardCodeHash_replaces)
  case revokeTokens => exact transact_appended rfl (.of_replace revokeTokens_replaces)
  case consumeRefreshToken => exact transact_appended rfl consumeRefreshToken_recording
  case rotateRefresh => exact transact_appended rfl rotateRefresh_recording
  case setCardArchived =>
    exact transact_appended rfl (.of_post setCardArchived_posts Option.mem_toList.mpr)
  case beginResponseTemplateWait =>
    simp only [beginResponseTemplateWait]
    split <;> exact ⟨[], .refl rfl rfl⟩
  case dropWaitSlot | protect => exact ⟨[], .refl rfl rfl⟩
  case archiveLedger | restart | reload => cases hop

end

end Engine
end Billing
