import Superkiro.Billing.Limits

-- Publications never change what was in force before them, nor what a request in flight is charged.
namespace Billing

open F64 Except Host

-- What was in force before some time.
def earlier (start : Nat) (versions : List (RateCardVersion F)) : List (RateCardVersion F) :=
  versions.filter (·.effectiveFromSecs < start)

-- No two versions have one ID, or one time for a rate card's model.
def UniquePrices (versions : List (RateCardVersion F)) : Prop :=
  versions.Pairwise fun v w => Commercial.isSamePrice w v = false

section

variable {t t' : Tables F} {versions versions' : List (RateCardVersion F)} {v w : RateCardVersion F}
  {start now now' : Nat}

theorem filter_eraseP {p q : α → Bool} {xs : List α} (h : ∀ x, xs.find? p = some x → q x = false) :
    (xs.eraseP p).filter q = xs.filter q := by
  induction xs
  case nil => rfl
  case cons x xs hi =>
    by_cases hp : p x
    case pos =>
      have hq := h x (by rw [List.find?_cons_of_pos hp])
      rw [List.eraseP_cons_of_pos hp, List.filter_cons_of_neg (by simp [hq])]
    case neg =>
      rw [List.find?_cons_of_neg hp] at h
      rw [List.eraseP_cons_of_neg hp, List.filter_cons, List.filter_cons, hi h]

theorem filter_earlier {p : RateCardVersion F → Bool} (h : ∀ v, p v → v.effectiveFromSecs < start)
    (versions : List (RateCardVersion F)) : versions.filter p = (earlier start versions).filter p := by
  rw [earlier, List.filter_filter]
  refine List.filter_congr fun v _ => ?_
  cases hp : p v
  case false => rfl
  case true => simp [h v hp]

-- A price only depends on what is in force by its time.
theorem latest_congr (h : earlier start t'.rateCardVersions = earlier start t.rateCardVersions)
    (hn : now < start) : t'.latest rateCardId model now = t.latest rateCardId model now := by
  have hf := @filter_earlier F start (fun v : RateCardVersion F =>
    v.rateCardId = rateCardId && v.model = model && v.effectiveFromSecs ≤ now) fun v hv => by
      simp only [Bool.and_eq_true, decide_eq_true_eq] at hv
      exact hv.right.trans_lt hn
  rw [Tables.latest, Tables.latest, hf, h, ← hf]

theorem resolvePrice_congr (h : earlier start t'.rateCardVersions = earlier start t.rateCardVersions)
    (hn : now < start) : t'.resolvePrice rateCardId models now =
      t.resolvePrice rateCardId models now := by
  rw [Tables.resolvePrice, Tables.resolvePrice, latest_congr h hn]
  congr 2
  funext model
  exact latest_congr h hn

-- An ID finds its version.
theorem UniquePrices.find? (h : UniquePrices t.rateCardVersions) (hv : v ∈ t.rateCardVersions) :
    t.getRateCardVersion v.id = some v := by
  have go (versions : List (RateCardVersion F)) (h : UniquePrices versions) (hv : v ∈ versions) :
      versions.find? (·.id = v.id) = some v := by
    induction versions
    case nil => cases hv
    case cons w ws hi =>
      rw [UniquePrices, List.pairwise_cons] at h
      cases hv
      case head => rw [List.find?_cons_of_pos (by simp)]
      case tail hv =>
        have hw := h.left v hv
        simp only [Commercial.isSamePrice, Bool.or_eq_false_iff, decide_eq_false_iff_not] at hw
        rw [List.find?_cons_of_neg (by simpa using hw.left), hi h.right hv]
  exact go _ h hv

-- What a publication at some time leaves of the versions before it.
structure PricesKept (now : Nat) (versions versions' : List (RateCardVersion F)) : Prop where
  earlier : earlier now versions' = earlier now versions
  kept    : ∀ v ∈ versions, v.effectiveFromSecs ≤ now → v ∈ versions'
  unique  : UniquePrices versions → UniquePrices versions'

theorem PricesKept.refl : PricesKept now versions versions := ⟨rfl, fun _ hv _ => hv, id⟩

theorem PricesKept.trans {versions'' : List (RateCardVersion F)} (h : PricesKept now versions versions')
    (h' : PricesKept now versions' versions'') : PricesKept now versions versions'' where
  earlier      := h'.earlier.trans h.earlier
  kept v hv hn := h'.kept v (h.kept v hv hn) hn
  unique hu    := h'.unique (h.unique hu)

theorem PricesKept.mono (h : PricesKept now' versions versions') (hn : now ≤ now') :
    PricesKept now versions versions' where
  earlier := by
    have hf := @filter_earlier F now' (fun v : RateCardVersion F =>
      decide (v.effectiveFromSecs < now)) fun v hv => (of_decide_eq_true hv).trans_le hn
    rw [Billing.earlier, Billing.earlier, hf, h.earlier, ← hf]
  kept v hv hle := h.kept v hv (hle.trans hn)
  unique  := h.unique

theorem pricesKept_cancel {id : String} (h : Commercial.cancelVersion now versions id = .ok versions') :
    PricesKept now versions versions' := by
  simp only [Commercial.cancelVersion, bind_eq_ok', exists_unit, pure_eq_ok, ensure_eq_ok] at h
  obtain ⟨hs, rfl⟩ := h
  have hf (q : RateCardVersion F → Bool)
      (hq : ∀ v : RateCardVersion F, now < v.effectiveFromSecs → q v = false) :
      (versions.eraseP (·.id = id)).filter q = versions.filter q := by
    refine filter_eraseP fun v hv => hq v ?_
    rw [hv] at hs
    exact of_decide_eq_true hs
  refine ⟨hf _ fun v hv => by simpa using hv.le, fun v hv hn => ?_, fun hu => ?_⟩
  · have hle := hf (fun v => decide (v.effectiveFromSecs ≤ now)) fun v hv => by simpa using hv
    have hm : v ∈ versions.filter fun v => decide (v.effectiveFromSecs ≤ now) := by
      simpa using ⟨hv, hn⟩
    rw [← hle] at hm
    exact (List.mem_filter.mp hm).left
  · exact hu.sublist List.eraseP_sublist

end

section

variable [F64 F] {live t : Tables F} {u : CommercialUpdate F} {now : Nat}
  {versions versions' : List (RateCardVersion F)} {priced : List (String × String)}
  {repriced : Bool} {v w : RateCardVersion F}

omit [F64 F] in
theorem startTime_le (h : Commercial.startTime priced repriced now v = .ok w) :
    now ≤ w.effectiveFromSecs := by
  unfold Commercial.startTime at h
  split at h
  case isTrue =>
    simp only [bind_eq_ok', exists_unit, pure_eq_ok] at h
    rw [← h.right]
  case isFalse hn =>
    cases h
    exact not_lt.mp hn

theorem pricesKept_add {s s' : Commercial.Versions F}
    (h : Commercial.addVersion live t priced repriced reason now s v = .ok s') :
    PricesKept now s.versions s'.versions := by
  simp only [Commercial.addVersion, bind_eq_ok', exists_unit, pure_eq_ok, ensure_eq_ok] at h
  obtain ⟨_, _, w, hw, hn, rfl⟩ := h
  have hw := startTime_le hw
  refine ⟨?_, fun v hv _ => List.mem_append_left _ hv, fun hu => ?_⟩
  · rw [earlier, List.filter_append, List.filter_cons_of_neg (by simpa using hw), List.filter_nil,
      List.append_nil]
    rfl
  · rw [Bool.not_eq_true', List.any_eq_false] at hn
    refine List.pairwise_append.mpr ⟨hu, List.pairwise_singleton .., fun v hv x hx => ?_⟩
    rw [List.mem_singleton] at hx
    rw [hx]
    exact Bool.eq_false_iff.mpr (hn v hv)

theorem Commercial.Reprices.pricesKept (h : Reprices live u now versions) :
    PricesKept now live.rateCardVersions versions := by
  obtain ⟨t, repriced, cancelled, s, hc, ha, rfl⟩ := h
  have hcancel : PricesKept now live.rateCardVersions cancelled :=
    foldlM_preserves (P := PricesKept now live.rateCardVersions)
      (fun _ _ _ _ hs h => hs.trans (pricesKept_cancel h)) .refl hc
  refine foldlM_preserves (P := fun s : Versions F => PricesKept now live.rateCardVersions s.versions)
    (fun _ _ _ _ hs h => hs.trans (pricesKept_add h)) hcancel ha

end

section

variable [F64 F] [Host F] {t t' : Tables F} {c : Change F} {e e' : Engine F} {start : Nat} {op : Op F}
  {io : Io} {ls : List (Engine.Label F)}

theorem Change.Step.pricesKept (h : Step t c t') (hc : ∀ u now, c = .publish u now → start ≤ now) :
    PricesKept start t.rateCardVersions t'.rateCardVersions := by
  cases h
  case publish h => exact h.reprices.pricesKept.mono (hc _ _ rfl)
  all_goals exact .refl

-- An engine that has saved its prices.
structure Engine.PricesSaved (e : Engine F) : Prop where
  keyed  : e.Invariant Tables.Keyed
  unique : UniquePrices e.tables.rateCardVersions
  saved  : e.persistent → ∀ {s}, e.disk = some s →
    s.tables.rateCardVersions = e.tables.rateCardVersions

-- An operation publishes prices for times from some on only.
def Op.PublishesFrom (start : Nat) (op : Op F) : Prop :=
  ∀ u now, op = .publishCommercialConfig u now → start ≤ now

omit [F64 F] [Host F] in
theorem Engine.PricesSaved.source (h : e.PricesSaved) (hr : e.persistent ∨ op ≠ .reload) :
    (e.source op).rateCardVersions = e.tables.rateCardVersions := by
  by_cases hop : op = .reload
  case neg => rw [Engine.source_eq hop]
  case pos =>
    subst hop
    simp only [Engine.source]
    cases hd : e.disk
    case none => rfl
    case some s => exact h.saved (hr.resolve_right fun h => h rfl) hd

theorem Change.Step.versions_eq (h : Step t c t') (hc : ∀ u now, c ≠ .publish u now) :
    t'.rateCardVersions = t.rateCardVersions := by
  cases h
  case publish => exact absurd rfl (hc _ _)
  all_goals rfl

omit [F64 F] in
-- What is published to memory is saved before.
theorem Engine.transact_saved {txn : Result (Txn F α)} (hp : e.persistent)
    (h : Publishes e.tables txn) :
    ((e.transact io txn).2.tables = e.tables ∧ (e.transact io txn).2.disk = e.disk) ∨
      ∃ s, (e.transact io txn).2.disk = some s ∧ s.tables = (e.transact io txn).2.tables := by
  have ht := transact_cases io h
  generalize (e.transact io txn).1 = a at ht
  generalize (e.transact io txn).2 = e' at ht ⊢
  cases ht
  case refused | answered => exact .inl ⟨rfl, rfl⟩
  case unsaved h => exact .inl ⟨h.tables, h.disk⟩
  case committed h => exact .inr ⟨_, h.saved hp, rfl⟩

theorem Engine.run_persistent (r : Run Engine.Step e ls e') : e'.persistent = e.persistent := by
  induction r
  case nil => rfl
  case cons hl _ hi => exact hi.trans (hl ▸ exec_persistent)

theorem Engine.PricesSaved.exec (h : e.PricesSaved) (hr : e.persistent ∨ op ≠ .reload)
    (hop : op.PublishesFrom start) : (e.exec io op).PricesSaved ∧
      PricesKept start e.tables.rateCardVersions (e.exec io op).tables.rateCardVersions := by
  obtain ⟨⟨cs, hsteps, hmakes⟩, hd⟩ := exec_effect io op h.keyed.source
  have hkept : PricesKept start e.tables.rateCardVersions
      (e.exec io op).tables.rateCardVersions := by
    rw [← h.source hr]
    refine hsteps.preserves_mem (I := fun t => PricesKept start _ t.rateCardVersions)
      (fun hm hp hs => hp.trans (hs.pricesKept ?_)) .refl
    rintro u now rfl
    cases hmakes _ hm
    exact hop u now rfl
  refine ⟨⟨?_, hkept.unique h.unique, fun hp s he => ?_⟩, hkept⟩
  · exact h.keyed.exec id fun _ hk hs => hs.keyed hk
  · rw [exec_persistent] at hp
    by_cases hpub : ∃ u now, op = .publishCommercialConfig u now
    case pos =>
      obtain ⟨u, now, rfl⟩ := hpub
      have hc : Commits e.tables _ (Commercial.publishCommercialConfig e.tables u now) :=
        publishCommercialConfig_commits
      rcases @transact_saved F _ e io _ _ hp hc.publishes with ⟨ht, hdisk⟩ | ⟨s', hs', ht⟩
      · have ht : (e.exec io (.publishCommercialConfig u now)).tables = e.tables := ht
        rw [ht]
        exact h.saved hp (hdisk ▸ he)
      · cases hs'.symm.trans he
        exact congrArg Tables.rateCardVersions ht
    case neg =>
      have hv : (e.exec io op).tables.rateCardVersions = e.tables.rateCardVersions := by
        rw [← h.source hr]
        refine hsteps.preserves_mem (I := fun t => t.rateCardVersions = (e.source op).rateCardVersions)
          (fun hm hp hs => (hs.versions_eq ?_).trans hp) rfl
        rintro u now rfl
        cases hmakes _ hm
        exact hpub ⟨_, _, rfl⟩
      rcases hd with hd | ⟨s', hs', ht, _⟩
      · rw [hv]
        exact h.saved hp (hd ▸ he)
      · cases hs'.symm.trans he
        exact congrArg Tables.rateCardVersions ht

theorem Engine.PricesSaved.run (h : e.PricesSaved) (r : Run Engine.Step e ls e')
    (hr : e.persistent ∨ ∀ l ∈ ls, l.op ≠ .reload) (hop : ∀ l ∈ ls, l.op.PublishesFrom start) :
    e'.PricesSaved ∧
      PricesKept start e.tables.rateCardVersions e'.tables.rateCardVersions := by
  induction r
  case nil => exact ⟨h, .refl⟩
  case cons e l e₁ ls e' hl _ hi =>
    subst hl
    rw [List.forall_mem_cons] at hop
    have hr' : (e.exec l.io l.op).persistent ∨ ∀ l ∈ ls, l.op ≠ .reload := by
      rw [exec_persistent]
      exact hr.imp_right fun h l hl => h l (.tail _ hl)
    obtain ⟨h₁, hkept⟩ := @Engine.PricesSaved.exec F _ _ e start l.op l.io h (hr.imp_right fun h => h l (.head _)) hop.left
    obtain ⟨h', hkept'⟩ := hi h₁ hr' hop.right
    exact ⟨h', hkept.trans hkept'⟩

-- No publication from some time on, nor anything else, changes a price before that time, takes away
-- a version that was in force by then, or lets two versions have one ID or one time.
theorem price_history_kept {e₀ : Engine F} {ls₀ : List (Engine.Label F)} (h₀ : e₀.PricesSaved)
    (r₀ : Run Engine.Step e₀ ls₀ e) (r : Run Engine.Step e ls e')
    (hr : e₀.persistent ∨ ∀ l ∈ ls₀ ++ ls, l.op ≠ .reload)
    (hop : ∀ l ∈ ls, l.op.PublishesFrom start) :
    (∀ rateCardId models now, now < start →
      e'.tables.resolvePrice rateCardId models now = e.tables.resolvePrice rateCardId models now) ∧
    (∀ v ∈ e.tables.rateCardVersions, v.effectiveFromSecs ≤ start →
      e'.tables.getRateCardVersion v.id = some v) ∧
    UniquePrices e'.tables.rateCardVersions := by
  have hr₀ := hr.imp_right fun h l hl => h l (List.mem_append_left _ hl)
  obtain ⟨h, _⟩ := @Engine.PricesSaved.run F _ _ _ _ 0 _ h₀ r₀ hr₀ fun _ _ _ _ _ => Nat.zero_le _
  have hper := Engine.run_persistent r₀
  obtain ⟨h', hkept⟩ := h.run r
    (hper ▸ hr.imp_right fun h l hl => h l (List.mem_append_right _ hl)) hop
  refine ⟨fun _ _ _ hn => resolvePrice_congr hkept.earlier hn, fun v hv hn => ?_, h'.unique⟩
  exact h'.unique.find? (hkept.kept v hv hn)

end

section

variable [F64 F] {t t' : Tables F} {v : RateCardVersion F} {locked : LockedPricing F}
  {id : String} {old : List (LedgerEntry F)} {entry : LedgerEntry F} {tokens : UsageTokens}

-- What a request comes to at what was locked for it.
def lockedCharge (v : RateCardVersion F) (locked : LockedPricing F) (tokens : UsageTokens) : I64 :=
  (surcharged (v.calculateCharge tokens locked.groupMargin locked.modelMultiplier locked.settings)
    locked.billingMultiplier).minOf maxSettlementMicroCredits

-- An entry that bills some tokens at what was locked.
structure LedgerEntry.Bills (v : RateCardVersion F) (locked : LockedPricing F) (tokens : UsageTokens)
    (entry : LedgerEntry F) : Prop where
  input    : entry.inputTokens =
    satAddU64 (satAddU64 tokens.uncachedInputTokens tokens.cacheReadTokens) tokens.cacheCreationTokens
  output   : entry.outputTokens = tokens.outputTokens
  creation : entry.cacheCreationTokens = tokens.cacheCreationTokens
  read     : entry.cacheReadTokens = tokens.cacheReadTokens
  version  : entry.rateCardVersion = some v.id
  charged  : entry.creditsCharged = lockedCharge v locked tokens

-- An invocation is billed at what was locked for it, and for nothing else.
structure Tables.ChargesAs (id : String) (v : RateCardVersion F) (locked : LockedPricing F)
    (old : List (LedgerEntry F)) (t : Tables F) : Prop where
  keyed   : t.Keyed
  unique  : UniquePrices t.rateCardVersions
  known   : v ∈ t.rateCardVersions
  held    : ∀ {r}, t.reservations.lookup id = some r → r.state = .held →
    r.rateCardVersion = some v.id ∧ r.pricing = some locked
  pending : ∀ {p}, t.pendingSettlements.lookup id = some p → ∃ tokens, p.entry.Bills v locked tokens
  billed  : ∀ entry ∈ t.ledger, entry.invocationId = some id → entry.kind = .usage →
    entry ∈ old ∨ ∃ tokens, entry.Bills v locked tokens

-- Whatever a settlement bills an invocation that is in flight, it does at what was locked for it.
theorem Tables.ChargesAs.bills {bill : PendingSettlement F}
    (h : t.ChargesAs id v locked old)
    (hb : t.priceSettlement id tokens exposed provider target now = .ok bill) :
    bill.entry.Bills v locked tokens := by
  simp only [priceSettlement, settlementEntry, bind_eq_ok', exists_unit, pure_eq_ok, ensure_eq_ok,
    ofOption_eq_ok, decide_eq_true_eq] at hb
  obtain ⟨r, hr, hs, hl, card, _, entry, ⟨_, he⟩, hb⟩ := hb
  subst hb he
  have hheld : r.state = .held := by cases h : r.state <;> simp_all
  obtain ⟨hv, hp⟩ := h.held hr hheld
  have hversion : t.settleVersion card (t.findModelMap card.groupId exposed) r exposed target =
      some v := by
    rw [settleVersion, hv]
    exact h.unique.find? h.known
  constructor
  case version => simp only [hversion, Option.map_some]
  case charged => simp only [hversion, settlePricing, hp, chargeOf, lockedCharge]
  all_goals rfl

theorem LedgerEntry.Bills.final {p : PendingSettlement F} (h : p.entry.Bills v locked tokens) :
    (t.finalEntry id p).Bills v locked tokens where
  input    := h.input
  output   := h.output
  creation := h.creation
  read     := h.read
  version  := h.version
  charged  := by
    apply I64.ext
    have hc := congrArg I64.val h.charged
    simp only [Tables.finalEntry, lockedCharge, I64.val_minOf] at hc ⊢
    omega

-- No other request of an invocation.
def Op.Reuses (id : String) : Op F → Prop
  | .reserve _ id' _ _ _                => id' = id
  | .chargeResponseTemplate _ _ _ r _   => r.invocationId = id
  | _                                   => False

variable [Host F] {c : Change F} {op : Op F} {start : Nat}

-- Nothing that happens to a request in flight changes what it's billed at.
theorem Change.Step.chargesAs {t₀ : Tables F} (hm : op.Makes t₀ c) (hid : ¬ op.Reuses id)
    (hop : op.PublishesFrom start) (hv : v.effectiveFromSecs ≤ start)
    (h : t.ChargesAs id v locked old) (hs : Step t c t') : t'.ChargesAs id v locked old := by
  have hk := hs.keyed h.keyed
  cases hs
  case hold card r hs =>
    cases hm
    case reserve hi _ =>
      have hne : id ≠ r.invocationId := fun he => hid (hi.symm.trans he.symm)
      refine ⟨hk, h.unique, h.known, fun hr hh => h.held ?_ hh, h.pending, h.billed⟩
      rwa [← AList.lookup_insert_ne hne]
  case extend id' card reserved r hs =>
    refine ⟨hk, h.unique, h.known, fun hr hh => ?_, h.pending, h.billed⟩
    cases AList.lookup_insert_iff.mp hr
    case inl hr =>
      obtain ⟨rfl, rfl⟩ := hr
      obtain ⟨r', ho, hh', hr, _⟩ := hs.grows
      have hl := h.held ho hh'
      rw [hr]
      exact hl
    case inr hr => exact h.held hr.right hh
  case pend id' p hn hp =>
    refine ⟨hk, h.unique, h.known, h.held, fun hl => ?_, h.billed⟩
    cases AList.lookup_insert_iff.mp hl
    case inl hl =>
      obtain ⟨rfl, rfl⟩ := hl
      exact ⟨_, h.bills hp⟩
    case inr hl => exact h.pending hl.right
  case debit id' r card entry hs =>
    refine ⟨hk, h.unique, h.known, fun hr hh => ?_, fun hl => ?_, fun entry' he hi hu => ?_⟩
    · cases AList.lookup_insert_iff.mp hr
      case inl hr => rw [← hr.right] at hh; cases hh
      case inr hr => exact h.held hr.right hh
    · exact h.pending (AList.lookup_erase_iff.mp hl).right
    · cases List.mem_append.mp he
      case inl he => exact h.billed _ he hi hu
      case inr he =>
        rw [List.mem_singleton] at he
        subst he
        cases hs.invocation.symm.trans hi
        obtain ⟨p, hd, rfl⟩ := hs.due
        obtain ⟨tokens, hb⟩ : ∃ tokens, p.entry.Bills v locked tokens := by
          rcases hd with hd | ⟨_, _, _, _, _, _, hd⟩
          · exact h.pending hd
          · exact ⟨_, h.bills hd⟩
        exact .inr ⟨tokens, hb.final⟩
  case release id' r _ hr hh =>
    refine ⟨hk, h.unique, h.known, fun hr hh => ?_, h.pending, h.billed⟩
    cases AList.lookup_insert_iff.mp hr
    case inl hr => rw [← hr.right] at hh; cases hh
    case inr hr => exact h.held hr.right hh
  case clean active now =>
    refine ⟨hk, h.unique, h.known, fun hr hh => ?_, h.pending, h.billed⟩
    obtain ⟨r', ho, hr, _⟩ := (Tables.lookup_clean h.keyed).mp hr
    rw [hr] at hh
    rw [hr, Tables.reclaimed_of_held hh]
    rw [Tables.reclaimed_of_held hh] at hh
    exact h.held ho hh
  case post hs =>
    refine ⟨hk, h.unique, h.known, h.held, h.pending, fun entry' he hi hu => ?_⟩
    cases List.mem_append.mp he
    case inl he => exact h.billed _ he hi hu
    case inr he =>
      rw [List.mem_singleton] at he
      exact absurd (he ▸ hu) hs.notUsage
  case charge card entry r hs _ =>
    refine ⟨hk, h.unique, h.known, h.held, h.pending, fun entry' he hi hu => ?_⟩
    cases List.mem_append.mp he
    case inl he => exact h.billed _ he hi hu
    case inr he =>
      rw [List.mem_singleton] at he
      subst he
      cases hm
      case charge hr _ =>
        obtain ⟨_, _, hb⟩ := hs.billed
        rw [hb] at hi
        cases hi
        exact absurd hr.symm hid
  case archive =>
    exact ⟨hk, h.unique, h.known, h.held, h.pending,
      fun entry he => h.billed _ (List.mem_filter.mp he).left⟩
  case publish hs =>
    cases hm
    have hkept := hs.reprices.pricesKept.mono (hop _ _ rfl)
    have hc := hs.configured
    refine ⟨hk, hkept.unique h.unique, hkept.kept v h.known hv, ?_, ?_, ?_⟩
    all_goals rw [hc]
    · exact h.held
    · exact h.pending
    · exact h.billed
  case recover =>
    refine ⟨hk, h.unique, h.known, fun hr hh => ?_, h.pending, h.billed⟩
    cases Tables.lookup_recovered_cases hr
    case inl hr => exact h.held hr.left hh
    case inr hr =>
      obtain ⟨_, _, _, _, hr⟩ := hr
      rw [hr] at hh
      cases hh
  all_goals exact ⟨hk, h.unique, h.known, h.held, h.pending, h.billed⟩

-- What is locked for a request for a model.
structure Tables.Locks (t : Tables F) (card : Card) (model : String) (p : ReservationEstimateParams F)
    (now : Nat) (v : RateCardVersion F) (locked : LockedPricing F) : Prop where
  version    : t.resolvePrice (t.rateCardOf card) (priceNames model (t.findModelMap card.groupId model))
    now = some v
  margin     : locked.groupMargin = t.marginOf card
  multiplier : locked.modelMultiplier =
    ((t.findModelMap card.groupId model).map (·.creditMultiplier)).getD p.creditMultiplier
  surcharge  : locked.billingMultiplier = p.billingMultiplier
  settings   : locked.settings =
    t.settings.forRoutes (((t.findModelMap card.groupId model).map (·.routes)).getD []) model

omit [Host F] in
theorem quote_locks {card : Card} {p : ReservationEstimateParams F} {q : Quote F}
    (h : t.quote card p now = .ok q) (hp : p.model = some model) :
    ∃ v locked, t.Locks card model p now v locked ∧ q.version = some v.id ∧ q.pricing = some locked := by
  simp only [Tables.quote, hp, bind_eq_ok', pure_eq_ok, ofOption_eq_ok] at h
  obtain ⟨v, hv, hq⟩ := h
  subst hq
  exact ⟨v, _, ⟨hv, rfl, rfl, rfl, rfl⟩, rfl, rfl⟩

variable {e₀ e e₁ e₂ : Engine F} {ls₀ ls : List (Engine.Label F)} {r : CreditReservation F}
  {p : ReservationEstimateParams F} {cardId : String}

theorem Engine.reserve_chargesAs (h : e.PricesSaved) (ha : e.tables.Accounted)
    (hr : e.reserve cardId id p now ttl = (.ok r, e₁)) (hp : p.model = some model) :
    ∃ card v locked, e.tables.cards.lookup cardId = some card ∧
      e.tables.Locks card model p now v locked ∧ v.effectiveFromSecs ≤ now ∧
      e₁.tables.ChargesAs id v locked e.tables.ledger := by
  unfold reserve at hr
  split at hr
  case h_1 => cases hr
  case h_2 card r' hnew =>
    cases hr
    have hnew' := newReservation_eq_ok hnew
    have hfound := hnew'.holdable.found
    have hk := (Change.Step.hold hnew'.holdable).keyed h.keyed.live
    rw [hnew'.owner] at hfound
    simp only [newReservation, bind_eq_ok', exists_unit, pure_eq_ok] at hnew
    obtain ⟨_, _, _, _, _, _, q, hq, _, _, _, _, _, hnew⟩ := hnew
    cases hnew
    obtain ⟨v, locked, hlocks, hv, hl⟩ := quote_locks hq hp
    obtain ⟨_, hf⟩ := resolvePrice_inForce hlocks.version
    refine ⟨_, v, locked, hfound, hlocks, hf.begun, hk, h.unique, hf.mem, fun hr _ => ?_,
      fun hl => ?_, fun entry he _ _ => .inl he⟩
    · cases AList.lookup_insert_iff.mp hr
      case inl hr => exact hr.right ▸ ⟨hv, hl⟩
      case inr hr => exact absurd rfl hr.left
    · obtain ⟨r, hr, hh, _⟩ := (ha.billed hl).reservation
      rw [(hnew'.holdable.free hr).left] at hh
      cases hh

-- A request is billed at the price, the margin, the multipliers and the settings in force when it was
-- taken, whatever is published between then and its settlement.
theorem settled_as_reserved (h₀ : e₀.PricesSaved) (ha₀ : e₀.Invariant Tables.Accounted)
    (r₀ : Run Engine.Step e₀ ls₀ e) (hr₀ : e₀.persistent ∨ ∀ l ∈ ls₀, l.op ≠ .reload)
    (hr : e.reserve cardId id p now ttl = (.ok r, e₁)) (hp : p.model = some model)
    (run : Run Engine.Step e₁ ls e₂)
    (hn : ∀ l ∈ ls, l.op ≠ .reload ∧ ¬ l.op.Reuses id ∧ l.op.PublishesFrom now) :
    ∃ card v locked, e.tables.cards.lookup cardId = some card ∧
      e.tables.Locks card model p now v locked ∧
      (∀ tokens exposed provider target later bill,
        e₂.tables.priceSettlement id tokens exposed provider target later = .ok bill →
        bill.entry.Bills v locked tokens) ∧
      ∀ entry ∈ e₂.tables.ledger, entry.invocationId = some id → entry.kind = .usage →
        entry ∈ e.tables.ledger ∨ ∃ tokens, entry.Bills v locked tokens := by
  obtain ⟨h, _⟩ := @Engine.PricesSaved.run F _ _ _ _ 0 _ h₀ r₀ hr₀ fun _ _ _ _ _ => Nat.zero_le _
  have ha : e.Invariant Tables.Accounted := ha₀.run (·.keyed) (fun ha hs => hs.accounted ha) r₀
  obtain ⟨card, v, locked, hcard, hlocks, hv, hc⟩ := Engine.reserve_chargesAs h ha.live hr hp
  have hc : e₂.tables.ChargesAs id v locked e.tables.ledger := by
    refine run.preserves_mem (I := fun e' => e'.tables.ChargesAs id v locked e.tables.ledger)
      (fun {_ l _} hl hc hs => ?_) hc
    obtain ⟨hreload, hid, hop⟩ := hn l hl
    rw [hs]
    obtain ⟨⟨cs, hsteps, hmakes⟩, _⟩ := Engine.exec_effect l.io l.op
      (Engine.source_eq hreload ▸ hc.keyed)
    rw [Engine.source_eq hreload] at hsteps
    exact hsteps.preserves_mem (I := fun t => t.ChargesAs id v locked e.tables.ledger)
      (fun hm hc hs => hs.chargesAs (hmakes _ hm) hid hop hv hc) hc
  exact ⟨card, v, locked, hcard, hlocks, fun _ _ _ _ _ _ hb => hc.bills hb, hc.billed⟩

end

section

open Engine

-- The engine when the first prices are published.
def Engine.selling : Engine ℚ := unpriced.execAll [{ op := .publishCommercialConfig .sample 10 }]

-- A publication that replaces the scheduled price by one from now on, at higher margins.
def CommercialUpdate.later : CommercialUpdate ℚ where
  expectedRevision  := Host.commercialDigest (Commercial.view selling.tables)
  reason            := "second prices"
  groups            := [{ Group.proPlus "default" "Default" with marginMultiplier := 2 }]
  versions          := [sample.version "v3" 50 20]
  cancelledVersions := ["v2"]

theorem unpriced_fresh : Engine.unpriced.tables.Fresh := by
  have hf {k c} (h : Engine.unpriced.tables.cards.lookup k = some c) : c = Card.sample := by
    cases AList.lookup_insert_iff.mp h
    case inl h => exact h.right.symm
    case inr h => simp at h
  refine ⟨unpriced_multiplies.live.keyed, ?_, ?_, ?_, ?_, rfl, rfl, rfl, rfl, rfl, rfl, rfl, rfl⟩
  all_goals
    intro k c h
    rw [hf h]
    decide

theorem unpriced_saved : Engine.unpriced.PricesSaved where
  keyed         := unpriced_multiplies.mono (·.keyed)
  unique        := .nil
  saved _ _ hd  := by cases hd

-- What was in force is as it was after the scheduled price is replaced.
theorem price_history_kept_later :
    let ops : List (Label ℚ) := [{ op := .publishCommercialConfig .later 50 }]
    (selling.execAll ops).tables.rateCardVersions.map (·.id) = ["v1", "v3"] ∧
      ∀ rateCardId models now, now < 50 →
        (selling.execAll ops).tables.resolvePrice rateCardId models now =
          selling.tables.resolvePrice rateCardId models now := by
  intro ops
  refine ⟨by decide +kernel, ?_⟩
  have r₀ : Run Step unpriced _ selling := run_execAll _ _
  have r : Run Step selling ops (selling.execAll ops) := run_execAll _ _
  refine (price_history_kept unpriced_saved r₀ r (.inr (by simp [ops])) ?_).left
  intro l hl u now hop
  rw [List.mem_singleton] at hl
  subst hl
  cases hop
  rfl

-- A request is settled at the price it was reserved at, after that was replaced.
theorem settled_as_reserved_later :
    let params := { ReservationEstimateParams.sample with model := some "sonnet" }
    let ops : List (Label ℚ) := [
      { op := .publishCommercialConfig .later 50 },
      { op := .settle "inv-1" { outputTokens := 1000 } "sonnet" "relay" "sonnet-4" 60 }]
    let reserved := selling.reserve "card-1" "inv-1" params 20 600
    (reserved.2.execAll ops).tables.ledger.map (·.rateCardVersion) = [some "v1"] ∧
      ∀ entry ∈ (reserved.2.execAll ops).tables.ledger, entry.invocationId = some "inv-1" →
        entry.kind = .usage → ∃ v locked tokens, entry.Bills v locked tokens := by
  intro params ops reserved
  have hok : reserved.1.isOk := by decide +kernel
  have hempty : selling.tables.ledger = [] := by decide +kernel
  refine ⟨by decide +kernel, fun entry he hi hu => ?_⟩
  cases h : reserved with
  | mk answer e₁ =>
    cases answer
    case error => rw [h] at hok; cases hok
    case ok =>
      rw [h] at he
      have r₀ : Run Step unpriced _ selling := run_execAll _ _
      have run : Run Step e₁ ops (e₁.execAll ops) := run_execAll _ _
      obtain ⟨_, v, locked, _, _, _, hb⟩ := settled_as_reserved unpriced_saved
        ⟨unpriced_fresh.accounted, fun hd => by cases hd⟩ r₀ (.inr (by simp)) h rfl run (by
          simp [ops, Op.Reuses, Op.PublishesFrom])
      rcases hb entry he hi hu with hold | ⟨tokens, hb⟩
      · rw [hempty] at hold
        cases hold
      · exact ⟨v, locked, tokens, hb⟩

end

end Billing
