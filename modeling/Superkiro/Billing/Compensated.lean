import Superkiro.Billing.History
import Superkiro.Billing.Shares

namespace Billing

open F64 Except Host AList

-- Every entry that's kept of what was recorded.
def Tables.keptEntries (t : Tables F) : List (LedgerEntry F) :=
  t.ledger ++ t.archivedLedgerSummary.adjustments.values
section

variable {parse : String → Option Json} {t : Tables F} {es : List (LedgerEntry F)} {key : String}

theorem adjustmentIds_eq : adjustmentIds es = es.filterMap LedgerEntry.archiveKey := by
  rw [adjustmentIds, List.filterMap_filter]
  congr 1
  funext e
  simp only [LedgerEntry.archiveKey, decide_eq_true_eq]

-- Compensations are kept under their own ids, each once.
structure Tables.Apart (parse : String → Option Json) (t : Tables F) : Prop where
  once  : ∀ key, (t.recordedUnder key).length ≤ 1
  own   : t.archivedLedgerSummary.adjustments.Own LedgerEntry.archiveKey
  named : ∀ e ∈ t.keptEntries, isCompensation parse e →
    ∃ key, e.invocationId = some key ∧ e.id = "ledger-" ++ key

namespace Tables.Apart

theorem nodup_keys (h : t.Apart parse) : (t.keptEntries.filterMap LedgerEntry.archiveKey).Nodup := by
  rw [keptEntries, List.filterMap_append, h.own.filterMap_values, ← adjustmentIds_eq]
  refine List.nodup_append.mpr ⟨?_, t.archivedLedgerSummary.adjustments.keys_nodup, ?_⟩
  · rw [List.nodup_iff_count_le_one]
    intro key
    have := h.once key
    rw [recordedUnder, List.length_append, length_adjustmentsUnder] at this
    omega
  · rintro key hl _ ha rfl
    have hc := List.count_pos_iff.mpr hl
    obtain ⟨e, he⟩ := mem_iff_lookup.mp (mem_keys.mpr ha)
    have := h.once key
    rw [recordedUnder, he, List.length_append, length_adjustmentsUnder, Option.toList_some,
      List.length_singleton] at this
    omega

theorem archiveKey_of_compensation {e : LedgerEntry F} (hc : isCompensation parse e)
    (hi : e.invocationId = some key) : e.archiveKey = some key := by
  simp only [isCompensation, Bool.and_eq_true, decide_eq_true_eq] at hc
  rw [LedgerEntry.archiveKey, if_pos hc.left.left, hi]

theorem mem_kept_of_archived {e : LedgerEntry F} {before : Nat} (h : e ∈ t.archived before) :
    e ∈ t.keptEntries :=
  List.mem_append_left _ (List.mem_filter.mp h).left

-- No two compensations have one ID.
theorem nodup_ids (h : t.Apart parse) :
    ((t.keptEntries.filter (isCompensation parse)).map (·.id)).Nodup := by
  have hids {es : List (LedgerEntry F)} (hn : ∀ e ∈ es, ∃ key, e.archiveKey = some key ∧
      e.id = "ledger-" ++ key) :
      es.map (·.id) = (es.filterMap LedgerEntry.archiveKey).map ("ledger-" ++ ·) := by
    induction es
    case nil => rfl
    case cons e es hi =>
      rw [List.forall_mem_cons] at hn
      obtain ⟨⟨key, hk, hid⟩, hn⟩ := hn
      rw [List.map_cons, hi hn, List.filterMap_cons_some hk, List.map_cons, hid]
  rw [hids]
  · refine (h.nodup_keys.sublist (List.filter_sublist.filterMap _)).map fun key key' he => ?_
    exact String.append_right_inj _ |>.mp he
  · intro e he
    obtain ⟨hm, hc⟩ := List.mem_filter.mp he
    obtain ⟨key, hk, hid⟩ := h.named e hm hc
    exact ⟨key, archiveKey_of_compensation hc hk, hid⟩

-- What's rebuilt comes to what all kept compensations do.
theorem build_total (h : t.Apart parse) (cardId id : String) :
    (CompensationIndex.build parse t.keptEntries).total cardId id =
      comesTo (t.keptEntries.flatMap (sharesFor parse cardId id)) :=
  CompensationIndex.build_total h.nodup_ids

theorem files (h : t.Apart parse) (before : Nat) : AList.Files LedgerEntry.archiveKey
    (fun e => isCompensation parse e) t.archivedLedgerSummary.adjustments (t.archived before) := by
  have hn := h.nodup_keys
  rw [keptEntries, List.filterMap_append, List.nodup_append] at hn
  have hkeyed : ∀ a ∈ t.archived before, isCompensation parse a → a.archiveKey.isSome := by
    intro a ha hc
    obtain ⟨key, hk, _⟩ := h.named a (mem_kept_of_archived ha) hc
    rw [archiveKey_of_compensation hc hk]
    rfl
  constructor
  case keyed => exact hkeyed
  case stay =>
    intro a ha key hk b hb
    have hl := List.mem_filterMap.mpr ⟨a, (List.mem_filter.mp ha).left, hk⟩
    have hv := List.mem_filterMap.mpr ⟨b, mem_values.mpr ⟨key, hb⟩, h.own hb⟩
    exact absurd rfl (hn.right.right key hl key hv)
  case apart =>
    have hp := List.pairwise_filterMap.mp hn.left
    refine (hp.sublist List.filter_sublist).imp_of_mem fun {a b} ha _ hab hc he => ?_
    obtain ⟨key, hk⟩ := Option.isSome_iff_exists.mp (hkeyed a ha hc)
    exact hab key hk key (he ▸ hk) rfl

theorem kept_perm (before : Nat) (receipt : ArchivedLedgerReceipt) :
    ((t.withArchive before receipt).keptEntries ++ t.archivedLedgerSummary.adjustments.lost
      LedgerEntry.archiveKey (t.archived before)).Perm t.keptEntries := by
  rw [keptEntries, adjustments_archive, List.append_assoc]
  have hf : ((t.archivedLedgerSummary.adjustments.file LedgerEntry.archiveKey
      (t.archived before)).values ++ _).Perm _ := file_perm
  apply (hf.append_left _).trans
  rw [← List.append_assoc]
  apply List.perm_append_comm.trans
  rw [← List.append_assoc]
  exact (t.archived_perm before).append_right _

-- An archive keeps every compensation.
theorem archive_perm (h : t.Apart parse) (before : Nat) (receipt : ArchivedLedgerReceipt)
    (cardId id : String) :
    ((t.withArchive before receipt).keptEntries.flatMap (sharesFor parse cardId id)).Perm
      (t.keptEntries.flatMap (sharesFor parse cardId id)) := by
  have hp := (kept_perm before receipt (t := t)).flatMap_right (sharesFor parse cardId id)
  have hlost := lost_iff.mpr (h.files before)
  have hn : (t.archivedLedgerSummary.adjustments.lost LedgerEntry.archiveKey
      (t.archived before)).flatMap (sharesFor parse cardId id) = [] := by
    rw [List.flatMap_eq_nil_iff]
    intro e he
    simp [sharesFor, hlost e he]
  rwa [List.flatMap_append, hn, List.append_nil] at hp

theorem archive (h : t.Apart parse) (before : Nat) (receipt : ArchivedLedgerReceipt) :
    (t.withArchive before receipt).Apart parse where
  once key := by
    rw [recordedUnder_archive (h.once key)]
    exact h.once key
  own := by
    rw [adjustments_archive]
    exact h.own.file
  named e he := h.named e ((kept_perm before receipt).mem_iff.mp (List.mem_append_left _ he))

end Tables.Apart

end

namespace Engine

section

variable [F64 F] [Host F] {e e' e₀ : Engine F} {io : Io} {op : Op F} {ls : List (Label F)}
variable {cardId id : String}

-- What an operation does to the entries that are kept and to what requests were given.
inductive Keeps (e : Engine F) (op : Op F) (e' : Engine F) : Prop
  | appended {es : List (LedgerEntry F)} :
    Appended e op es e' →
    (∀ entry ∈ es, isCompensation (parseJson F) entry → ∃ a, op = .adjustCardBalance a ∧
      es = [a.entry e.tables e.archives] ∧
      checkRequests e.tables e.compensations a a.distinct (a.charged e.tables e.archives) = .ok ()) →
    Keeps e op e'
  | archived {before : Nat} {receipt : ArchivedLedgerReceipt} :
    e'.tables = e.tables.withArchive before receipt → e'.compensations = e.compensations →
    Keeps e op e'
  | rebuilt :
    e.Recorded e'.tables → e'.compensations = .build (parseJson F) e.tables.keptEntries →
    Keeps e op e'

omit [F64 F] in
theorem Keeps.refl (ht : e'.tables = e.tables) (hc : e'.compensations = e.compensations) :
    Keeps e op e' :=
  .appended (.refl ht hc) (List.forall_mem_nil _)

omit [F64 F] in
theorem Appended.kept_perm {es : List (LedgerEntry F)} (h : Appended e op es e') :
    (e.tables.keptEntries ++ es).Perm e'.tables.keptEntries := by
  rw [Tables.keptEntries, Tables.keptEntries, h.appends.ledger, h.appends.archived,
    List.append_assoc, List.append_assoc]
  exact List.perm_append_comm.append_left _

theorem adjustCardBalance_keeps {a : BalanceAdjustment} :
    Keeps e (.adjustCardBalance a) (e.adjustCardBalance io a).2 := by
  have h : Adjusting e io a _ (e.adjustCardBalance io a).2 := adjustCardBalance_cases
  generalize (e.adjustCardBalance io a).1 = r at h
  generalize (e.adjustCardBalance io a).2 = e' at h ⊢
  cases h
  case refused hu hc => exact .refl hu.tables hc
  case replayed => exact .refl rfl rfl
  case adjusted card card' e' _ _ hreq _ _ hcom hc =>
    have ht := hcom.tables_eq rfl
    have happ : Appends e.tables (.adjustCardBalance a) [a.entry e.tables e.archives] e'.tables :=
      .adjustment rfl (by simp [Op.adjustmentIds, Op.entryId]) (by rw [ht]; rfl) (by rw [ht]; rfl)
        fun _ => rfl
    exact .appended ⟨happ, by simp [hc]⟩ fun _ _ _ => ⟨a, rfl, rfl, hreq⟩

theorem exec_keeps (hk : e.tables.Keyed) (hm : op = .reload → e.Matches) :
    Keeps e op (e.exec io op) := by
  by_cases hop : op.appends
  case pos =>
    by_cases ha : op.adjusts
    case pos =>
      cases op
      case adjustCardBalance => exact adjustCardBalance_keeps
      all_goals cases ha
    case neg =>
      obtain ⟨es, (h : Appended e op es (e.exec io op))⟩ := exec_appended hk hop
      exact .appended h fun entry he hc => absurd (h.appends.plain entry he hc) ha
  case neg =>
    cases op
    case archiveLedger before =>
      have hc : (e.archiveLedger io before).2.compensations = e.compensations :=
        congrArg Process.compensations archiveLedger_process
      have hcs : (e.archiveLedger io before).2.tables = e.tables ∨
          ∃ receipt, (e.archiveLedger io before).2.tables = e.tables.withArchive before receipt :=
        archiveLedger_cases
      rcases hcs with ht | ⟨receipt, ht⟩
      · exact .refl ht hc
      · exact .archived ht hc
    case restart => exact .rebuilt restart_recorded rfl
    case reload =>
      have hr := (hm rfl).reload
      simp only [exec]
      cases hd : e.disk
      case none =>
        rw [Engine.reload, hd]
        exact .refl rfl rfl
      case some s =>
        obtain ⟨hl, ha⟩ := hm rfl hd
        refine .rebuilt hr ?_
        rw [Engine.reload, hd, Tables.keptEntries, ← hl, ← ha]
        rfl
    all_goals exact absurd rfl hop

-- What requests were given is what the compensations that are kept gave them.
structure Indexed (e : Engine F) : Prop where
  apart : e.tables.Apart (parseJson F)
  total : ∀ cardId id, e.compensations.total cardId id =
    comesTo (e.tables.keptEntries.flatMap (sharesFor (parseJson F) cardId id))

omit [F64 F] in
theorem Indexed.keeps (h : e.Indexed) (hk : Keeps e op e')
    (honce : ∀ key, (e'.tables.recordedUnder key).length ≤ 1) : e'.Indexed := by
  cases hk
  case appended es ha hes =>
    have hp := ha.kept_perm
    obtain ⟨ha, hc⟩ := ha
    constructor
    case apart =>
      refine ⟨honce, ha.archived ▸ h.apart.own, fun entry he hcomp => ?_⟩
      rcases List.mem_append.mp (hp.mem_iff.mpr he) with he | he
      · exact h.apart.named entry he hcomp
      · obtain ⟨a, _, hes, _⟩ := hes entry he hcomp
        rw [hes, List.mem_singleton] at he
        subst he
        exact ⟨_, rfl, rfl⟩
    case total =>
      intro cardId id
      rw [hc, CompensationIndex.foldl_add_total (h.total cardId id), ← List.flatMap_append]
      refine comesTo_perm (fun s hs => ?_) (hp.flatMap_right _)
      obtain ⟨_, _, hs⟩ := List.mem_flatMap.mp hs
      exact CompensationIndex.sharesFor_nonneg s hs
  case archived before receipt ht hc =>
    constructor
    case apart => exact ht ▸ h.apart.archive before receipt
    case total =>
      intro cardId id
      rw [hc, h.total, ht]
      refine (comesTo_perm (fun s hs => ?_) (h.apart.archive_perm before receipt cardId id)).symm
      obtain ⟨_, _, hs⟩ := List.mem_flatMap.mp hs
      exact CompensationIndex.sharesFor_nonneg s hs
  case rebuilt hr hc =>
    have he : e'.tables.keptEntries = e.tables.keptEntries := by
      rw [Tables.keptEntries, Tables.keptEntries, hr.ledger, hr.adjustments]
    constructor
    case apart => exact ⟨honce, hr.adjustments ▸ h.apart.own, he ▸ h.apart.named⟩
    case total =>
      intro cardId id
      rw [hc, he, h.apart.build_total]

-- Steps that record nothing under an ID that's taken.
def Untaken (e : Engine F) (l : Label F) (e' : Engine F) : Prop :=
  (∀ key, ¬l.op.Clashes e.tables key) ∧ Step e l e'

theorem Indexed.exec (h : e.Indexed) (hk : e.tables.Keyed) (hm : op = .reload → e.Matches)
    (hc : ∀ key, ¬op.Clashes e.tables key) : (e.exec io op).Indexed := by
  refine h.keeps (exec_keeps hk hm) fun key => ?_
  have hr : (e.exec io op).tables.recordedUnder key = _ ∧ _ :=
    exec_recordedUnder hk hm (hc key) (h.apart.once key)
  exact hr.right

-- An engine that starts again finds what requests were given.
theorem Indexed.again (h : e.Indexed) (hk : e.tables.Keyed) (hm : op = .reload → e.Matches)
    (hn : op.adjustmentIds e.tables = []) (hr : e.Recorded (e.exec io op).tables) (cardId id : String) :
    (e.exec io op).compensations.total cardId id = e.compensations.total cardId id := by
  have h' : (e.exec io op).Indexed := h.exec hk hm fun key hclash => by
    rw [Op.Clashes, hn] at hclash
    cases hclash.right.right
  rw [h'.total, h.total, Tables.keptEntries, Tables.keptEntries, hr.ledger, hr.adjustments]

theorem Indexed.run (h : e.Indexed) (hc : e.Consistent) (run : Run Untaken e ls e')
    (hr : e.persistent ∨ ∀ l ∈ ls, l.op ≠ .reload) : e'.Indexed ∧ e'.Consistent := by
  induction run
  case nil => exact ⟨h, hc⟩
  case cons e l e₁ ls e' hl _ hi =>
    obtain ⟨hclash, hs⟩ := hl
    subst hs
    have hm : l.op = .reload → e.Matches := by
      intro he
      rcases hr with hp | hr
      · exact hc.saved hp
      · exact absurd he (hr l (.head _))
    apply hi (h.exec hc.keyed.live hm hclash) hc.exec
    rw [exec_persistent]
    exact hr.imp_right fun h l hl => h l (.tail _ hl)

omit [F64 F] [Host F] in
theorem Started.indexed [Host F] (h : e.Started) (hi : e.compensations = ∅) : e.Indexed := by
  have hkept : e.tables.keptEntries = [] := by
    rw [Tables.keptEntries, h.fresh.ledger, h.fresh.adjustments]
    rfl
  constructor
  case total =>
    intro cardId id
    rw [hi, hkept]
    rfl
  case apart =>
    constructor
    case once =>
      intro key
      rw [Tables.recordedUnder, h.fresh.ledger, h.fresh.adjustments]
      exact Nat.zero_le 1
    case own =>
      rw [h.fresh.adjustments]
      intro k a hl
      cases hl
    case named =>
      rw [hkept]
      exact List.forall_mem_nil _

-- Whatever is adjusted, archived and restarted, what a request was given is what the adjustments that
-- are kept gave it, also after an engine starts again and counts them anew.
theorem compensations_rebuilt (h₀ : e₀.Started) (hi : e₀.compensations = ∅)
    (run : Run Untaken e₀ ls e) (hr : e₀.persistent ∨ ∀ l ∈ ls, l.op ≠ .reload)
    (hs : e.Resumed e') (cardId id : String) :
    e'.compensations.total cardId id = e.compensations.total cardId id ∧
    e.compensations.total cardId id =
      comesTo (e.tables.keptEntries.flatMap (sharesFor (parseJson F) cardId id)) := by
  obtain ⟨h, hc⟩ := (h₀.indexed hi).run h₀.consistent run hr
  refine ⟨?_, h.total cardId id⟩
  cases hs
  case running => rfl
  case restarted io =>
    exact @Indexed.again F _ _ e io .restart h hc.keyed.live (fun h => by cases h) rfl restart_recorded cardId id
  case reloaded hp =>
    have hm := hc.saved hp
    exact @Indexed.again F _ _ e {} .reload h hc.keyed.live (fun _ => hm) rfl hm.reload cardId id

-- The requests that a compensation is for.
def compensates (cardId id : String) (entry : LedgerEntry F) : Bool :=
  isCompensation (parseJson F) entry && entry.cardId = cardId &&
    (linkedRequests (entry.eventDetail (parseJson F))).contains id

-- How a request was compensated: by an adjustment of its card that names it and comes to its shares, in
-- a step in which the request was found to be charged no less than its share.
structure Compensated (e₀ : Engine F) (ls : List (Label F)) (cardId id : String) (given : I64) :
    Prop where
  step : ∃ ls₁ l ls₂ a found, ls = ls₁ ++ l :: ls₂ ∧ l.op = .adjustCardBalance a ∧
    a.cardId = cardId ∧ id ∈ a.requests ∧
    (e₀.execAll ls₁).tables.chargedRequest (e₀.execAll ls₁).archives id = some found ∧
    found.cardId = cardId ∧ given.val ≤ max found.credits.val 0 ∧
    ((shares (parseJson F) (a.entry (e₀.execAll ls₁).tables (e₀.execAll ls₁).archives)).map
      (·.2.val)).sum = a.deltaMicroCredits.val

theorem Compensated.cons {l : Label F} {given : I64} (h : (e.exec l.io l.op).Compensated ls cardId id given) :
    e.Compensated (l :: ls) cardId id given := by
  obtain ⟨ls₁, l', ls₂, a, found, rfl, h'⟩ := h.step
  exact ⟨l :: ls₁, l', ls₂, a, found, rfl, h'⟩

-- What a request was given, share by share.
def given (e : Engine F) (cardId id : String) : List I64 :=
  e.tables.keptEntries.flatMap (sharesFor (parseJson F) cardId id)

omit [F64 F] in
-- A step that isn't allowed to repeat a compensation gives a request something only once.
theorem Keeps.given (h : e.Indexed) (hk : Keeps e op e')
    (hn : ∀ a, op = .adjustCardBalance a → a.allowRepeat = false) :
    (e'.given cardId id).Perm (e.given cardId id) ∨
    e.given cardId id = [] ∧ ∃ a found share, op = .adjustCardBalance a ∧ a.cardId = cardId ∧
      id ∈ a.requests ∧ e.tables.chargedRequest e.archives id = some found ∧
      found.cardId = cardId ∧ share.val ≤ max found.credits.val 0 ∧
      ((shares (parseJson F) (a.entry e.tables e.archives)).map (·.2.val)).sum =
        a.deltaMicroCredits.val ∧ e'.given cardId id = [share] := by
  cases hk
  case archived before receipt ht _ =>
    rw [Engine.given, ht]
    exact .inl (h.apart.archive_perm before receipt cardId id)
  case rebuilt hr _ =>
    rw [Engine.given, Tables.keptEntries, hr.ledger, hr.adjustments]
    exact .inl (.refl _)
  case appended es ha hes =>
    have hp := ha.kept_perm.flatMap_right (sharesFor (parseJson F) cardId id)
    rw [List.flatMap_append] at hp
    have same (hnil : es.flatMap (sharesFor (parseJson F) cardId id) = []) :
        (e'.given cardId id).Perm (e.given cardId id) := by
      rw [hnil, List.append_nil] at hp
      exact hp.symm
    by_cases hex : ∃ entry ∈ es, isCompensation (parseJson F) entry
    case neg =>
      refine .inl (same (List.flatMap_eq_nil_iff.mpr fun entry he => ?_))
      have hc : ¬isCompensation (parseJson F) entry := fun hc => hex ⟨entry, he, hc⟩
      simp [sharesFor, hc]
    case pos =>
      obtain ⟨entry, he, hc⟩ := hex
      obtain ⟨a, hop, rfl, hreq⟩ := hes entry he hc
      rw [List.mem_singleton] at he
      subst he
      by_cases hm : cardId = a.cardId ∧ id ∈ a.distinct
      case neg => exact .inl (same (by simp [sharesFor_entry_of_not_mem hm]))
      case pos =>
        obtain ⟨rfl, hm⟩ := hm
        have hd : 0 < a.deltaMicroCredits := by
          simp only [isCompensation, Bool.and_eq_true, decide_eq_true_eq] at hc
          exact hc.left.right
        have hchecked := checked_of_checkRequests hd (hn a hop) hreq
        obtain ⟨found, hf, hcard⟩ := hchecked.found id hm
        have hshare : ∃ share,
            sharesFor (parseJson F) a.cardId id (a.entry e.tables e.archives) = [share] ∧
            share.val ≤ max (chargeOf e.tables e.archives id).val 0 := hchecked.share hd hm
        obtain ⟨share, hs, hle⟩ := hshare
        have hnone : e.given a.cardId id = [] := by
          rw [← comesTo_eq_none, Engine.given, ← h.total, CompensationIndex.total,
            hchecked.fresh id hm]
          rfl
        rw [chargeOf, hf] at hle
        refine .inr ⟨hnone, a, found, share, hop, rfl, BalanceAdjustment.mem_distinct.mp hm, hf,
          hcard, hle, sum_shares_entry hd (List.ne_nil_of_mem hm), ?_⟩
        rw [← Engine.given, hnone, List.nil_append, List.flatMap_singleton, hs] at hp
        exact List.perm_singleton.mp hp.symm

theorem Indexed.run_given (h : e.Indexed) (hc : e.Consistent) (run : Run Untaken e ls e')
    (cardId id : String) (hr : e.persistent ∨ ∀ l ∈ ls, l.op ≠ .reload)
    (hn : ∀ l ∈ ls, ∀ a, l.op = .adjustCardBalance a → a.allowRepeat = false) :
    (e'.given cardId id).Perm (e.given cardId id) ∨
    e.given cardId id = [] ∧ ∃ share, e'.given cardId id = [share] ∧
      e.Compensated ls cardId id share := by
  induction run
  case nil => exact .inl (.refl _)
  case cons e l e₁ ls e' hl run hi =>
    obtain ⟨hclash, hs⟩ := hl
    subst hs
    rw [List.forall_mem_cons] at hn
    have hm : l.op = .reload → e.Matches := by
      intro he
      rcases hr with hp | hr
      · exact hc.saved hp
      · exact absurd he (hr l (.head _))
    have hr' : (e.exec l.io l.op).persistent ∨ ∀ l ∈ ls, l.op ≠ .reload := by
      rw [exec_persistent]
      exact hr.imp_right fun h l hl => h l (.tail _ hl)
    have hi := hi (h.exec hc.keyed.live hm hclash) hc.exec hr' hn.right
    have hk : Keeps e l.op (e.exec l.io l.op) := exec_keeps hc.keyed.live hm
    rcases hk.given h hn.left with hp | ⟨hnil, a, found, share, hop, hcard, hid, hf, hfc, hle, hsum, hg⟩
    · rcases hi with hp' | ⟨hnil, share, hg, hcomp⟩
      · exact .inl (hp'.trans hp)
      · rw [hnil] at hp
        exact .inr ⟨hp.symm.eq_nil, share, hg, hcomp.cons⟩
    · rcases hi with hp' | ⟨hnil', _⟩
      · rw [hg] at hp'
        exact .inr ⟨hnil, share, List.perm_singleton.mp hp', ⟨[], l, ls, a, found, rfl, hop, hcard, hid,
          hf, hfc, hle, hsum⟩⟩
      · rw [hg] at hnil'
        cases hnil'

omit [F64 F] in
theorem length_compensates_le {es : List (LedgerEntry F)} :
    (es.filter (compensates cardId id)).length ≤
      (es.flatMap (sharesFor (parseJson F) cardId id)).length := by
  induction es
  case nil => exact Nat.le_refl 0
  case cons entry es hi =>
    rw [List.filter_cons, List.flatMap_cons, List.length_append]
    split
    case isFalse => omega
    case isTrue hc =>
      have hpos : 0 < (sharesFor (parseJson F) cardId id entry).length := by
        simp only [compensates, Bool.and_eq_true] at hc
        obtain ⟨⟨hcomp, hcard⟩, hid⟩ := hc
        rw [sharesFor, hcomp, Bool.true_and, if_pos hcard, List.length_map, List.length_pos_iff]
        exact filter_shares_ne_nil (List.contains_iff_mem.mp hid)
      rw [List.length_cons]
      omega

-- In a run in which no adjustment is allowed to repeat another or to exceed what was charged, a request
-- is compensated by one adjustment at most, with no more than was found to be charged for it.
theorem compensated_once (h₀ : e₀.Started) (hi : e₀.compensations = ∅)
    (run : Run Untaken e₀ ls e) (hr : e₀.persistent ∨ ∀ l ∈ ls, l.op ≠ .reload)
    (hn : ∀ l ∈ ls, ∀ a, l.op = .adjustCardBalance a → a.allowRepeat = false)
    (cardId id : String) :
    (e.tables.keptEntries.filter (compensates cardId id)).length ≤ 1 ∧
    ∀ total, e.compensations.total cardId id = some total →
      0 ≤ total.val ∧ e₀.Compensated ls cardId id total := by
  have h := h₀.indexed hi
  have hnil : e₀.given cardId id = [] := by
    rw [← comesTo_eq_none, Engine.given, ← h.total, hi]
    rfl
  have hg := h.run_given h₀.consistent run cardId id hr hn
  obtain ⟨h', _⟩ := h.run h₀.consistent run hr
  have htotal := h'.total cardId id
  have hlen := @length_compensates_le F _ cardId id e.tables.keptEntries
  rw [← Engine.given] at htotal hlen
  rcases hg with hp | ⟨_, share, hg, hc⟩
  · rw [hnil] at hp
    rw [hp.eq_nil] at htotal hlen
    exact ⟨hlen.trans (Nat.zero_le 1), fun total ht => by rw [htotal] at ht; cases ht⟩
  · rw [hg] at htotal hlen
    refine ⟨hlen, fun total ht => ?_⟩
    rw [htotal, ← List.nil_append [share], comesTo_concat] at ht
    cases ht
    have hm : share ∈ e.given cardId id := hg ▸ List.mem_singleton.mpr rfl
    obtain ⟨_, _, hm⟩ := List.mem_flatMap.mp hm
    exact ⟨CompensationIndex.sharesFor_nonneg share hm, hc⟩

-- No operation of a run records anything under an ID that's taken.
def clear (e : Engine F) : List (Label F) → Bool
  | []      => true
  | l :: ls =>
    (l.op.adjustmentIds e.tables).all (fun key => (e.tables.adjustmentUnder key).isNone) &&
      (e.exec l.io l.op).clear ls

theorem run_untaken (h : e.clear ls) : Run Untaken e ls (e.execAll ls) := by
  induction ls generalizing e
  case nil => exact .nil
  case cons l ls hi =>
    simp only [clear, Bool.and_eq_true, List.all_eq_true] at h
    refine .cons ⟨fun key hclash => ?_, rfl⟩ (hi h.right)
    have hn := h.left key hclash.right.right
    rw [Option.isNone_iff_eq_none] at hn
    simpa [hn] using hclash.left

end

-- A request is charged and compensated, its charge and its compensation are archived, and it can't be
-- compensated again.
def compensating : List (Label ℚ) := [
  { op := .reserve "card-1" "inv-1" .sample 10 100 },
  { op := .settle "inv-1" { outputTokens := 1000 } "model" "provider" "target" 20 },
  { op := .adjustCardBalance (forRequest 30) },
  { op := .archiveLedger 60 },
  { op := .adjustCardBalance (forRequest 70) }]
where
  forRequest (now : Nat) : BalanceAdjustment := {
    cardId            := "card-1"
    deltaMicroCredits := 3
    operatorId        := "operator"
    reason            := "a failed answer"
    nowSecs           := now
    requests          := ["inv-1"]
  }

theorem compensating_clear : sample.clear compensating := by decide +kernel

theorem compensating_total :
    (sample.execAll compensating).compensations.total "card-1" "inv-1" = some 3 := by decide +kernel

theorem compensations_rebuilt_archived : let e := sample.execAll compensating
    e.tables.ledger = [] ∧ e.reload.compensations.total "card-1" "inv-1" = some 3 := by
  intro e
  have run := run_untaken compensating_clear
  have h := (compensations_rebuilt sample_started rfl run (.inl rfl)
    (.reloaded (by decide +kernel)) "card-1" "inv-1").left
  exact ⟨by decide +kernel, h.trans compensating_total⟩

theorem compensated_once_archived : let e := sample.execAll compensating
    (e.tables.keptEntries.filter (compensates "card-1" "inv-1")).length ≤ 1 ∧
      sample.Compensated compensating "card-1" "inv-1" 3 := by
  have run := run_untaken compensating_clear
  have hn : ∀ l ∈ compensating, ∀ a, l.op = .adjustCardBalance a → a.allowRepeat = false := by
    intro l hl a hop
    simp only [compensating, List.mem_cons, List.not_mem_nil, or_false] at hl
    rcases hl with rfl | rfl | rfl | rfl | rfl <;> cases hop <;> rfl
  have h := compensated_once sample_started rfl run (.inl rfl) hn "card-1" "inv-1"
  exact ⟨h.left, (h.right 3 compensating_total).right⟩

end Engine

end Billing
