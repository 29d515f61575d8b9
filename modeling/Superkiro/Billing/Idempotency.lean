import Superkiro.Billing.Entries
import Superkiro.Billing.Turns

namespace Billing

open F64 Except Host AList

def LedgerEntry.isAdjustmentUnder (key : String) (e : LedgerEntry F) : Bool :=
  e.kind = .adjustment && e.invocationId = some key

def adjustmentsUnder (key : String) (es : List (LedgerEntry F)) : List (LedgerEntry F) :=
  es.filter (·.isAdjustmentUnder key)

-- The adjustments kept under a key, in the ledger and of what was archived of it.
def Tables.recordedUnder (t : Tables F) (key : String) : List (LedgerEntry F) :=
  adjustmentsUnder key t.ledger ++ (t.archivedLedgerSummary.adjustments.lookup key).toList

def Op.idempotencyKey : Op F → Option String
  | .adjustCardBalance a => a.idempotencyKey
  | .upgradeCard u       => u.idempotencyKey
  | _                    => none

-- Whether an operation would record an adjustment under an id of its own making that another is already
-- recorded under.
def Op.Clashes [Host F] (op : Op F) (t : Tables F) (key : String) : Prop :=
  (t.adjustmentUnder key).isSome ∧ op.idempotencyKey ≠ some key ∧ key ∈ op.adjustmentIds t

section

variable {t t' : Tables F} {key : String} {es : List (LedgerEntry F)}

@[simp]
theorem adjustmentsUnder_append {es' : List (LedgerEntry F)} :
    adjustmentsUnder key (es ++ es') = adjustmentsUnder key es ++ adjustmentsUnder key es' :=
  List.filter_append ..

namespace Tables

theorem adjustmentUnder_eq : t.adjustmentUnder key = (t.recordedUnder key).head? := by
  rw [recordedUnder, adjustmentsUnder, List.head?_append, List.head?_filter]
  simp only [adjustmentUnder, LedgerEntry.isAdjustmentUnder, Option.orElse_eq_or, Option.head?_toList]

theorem adjustmentUnder_eq_none : t.adjustmentUnder key = none ↔ t.recordedUnder key = [] := by
  rw [adjustmentUnder_eq, List.head?_eq_none_iff]

-- What is archived last of what an id was recorded under is what stays under it.
theorem lookup_foldl_includeEntry (s : ArchivedLedgerSummary F) :
    (es.foldl ArchivedLedgerSummary.includeEntry s).adjustments.lookup key =
      (adjustmentsUnder key es).getLast?.or (s.adjustments.lookup key) := by
  induction es generalizing s
  case nil => rfl
  case cons e es hi =>
    rw [List.foldl_cons, hi, adjustmentsUnder, adjustmentsUnder, List.filter_cons]
    split
    case isTrue h =>
      simp only [LedgerEntry.isAdjustmentUnder, Bool.and_eq_true, decide_eq_true_eq] at h
      rw [List.getLast?_cons]
      cases (es.filter (·.isAdjustmentUnder key)).getLast?
      case some => rfl
      case none => simp [ArchivedLedgerSummary.includeEntry, h.left, h.right]
    case isFalse h =>
      refine congrArg _ ?_
      simp only [ArchivedLedgerSummary.includeEntry]
      split
      case h_2 => rfl
      case h_1 k hk hi =>
        refine lookup_insert_ne fun he => h ?_
        simp [LedgerEntry.isAdjustmentUnder, hk, hi, he]

theorem archive_singleton {archived kept all : List α} {old : Option α}
    (hp : (archived ++ kept).Perm all) (h : (all ++ old.toList).length ≤ 1) :
    kept ++ (archived.getLast?.or old).toList = all ++ old.toList := by
  have hl := hp.length_eq
  simp only [List.length_append] at h hl
  rcases archived with _ | ⟨x, _ | ⟨y, archived⟩⟩
  case nil =>
    rcases all with _ | ⟨z, _ | _⟩
    case nil => simp_all
    case cons.nil => simp_all
    case cons.cons =>
      simp only [List.length_cons] at h
      omega
  case cons.nil =>
    simp only [List.length_singleton] at hl
    have hk : kept = [] := List.eq_nil_of_length_eq_zero (by omega)
    have ho : old = none := by
      cases old
      case none => rfl
      case some =>
        simp only [Option.toList_some, List.length_singleton] at h
        omega
    subst hk ho
    have ha : all = [x] := by simpa using hp.symm
    simp [ha]
  case cons.cons =>
    simp only [List.length_cons] at hl
    omega

-- Archiving keeps what is recorded under a key, where it is recorded once.
theorem recordedUnder_archive (h : (t.recordedUnder key).length ≤ 1) :
    (t.withArchive before receipt).recordedUnder key = t.recordedUnder key := by
  have hp : (adjustmentsUnder key (t.archived before) ++
      adjustmentsUnder key (t.kept before)).Perm (adjustmentsUnder key t.ledger) := by
    rw [← adjustmentsUnder_append]
    exact (t.archived_perm before).filter _
  simp only [recordedUnder, withArchive, lookup_foldl_includeEntry]
  exact archive_singleton hp h

theorem recordedUnder_congr (hl : t'.ledger = t.ledger)
    (ha : t'.archivedLedgerSummary.adjustments = t.archivedLedgerSummary.adjustments) :
    t'.recordedUnder key = t.recordedUnder key := by
  rw [recordedUnder, recordedUnder, hl, ha]

end Tables

theorem length_adjustmentsUnder :
    (adjustmentsUnder key es).length = (adjustmentIds es).count key := by
  induction es
  case nil => rfl
  case cons e es hi =>
    simp only [adjustmentsUnder, adjustmentIds] at hi ⊢
    by_cases hk : e.kind = .adjustment
    case neg => simpa [List.filter_cons, LedgerEntry.isAdjustmentUnder, hk] using hi
    case pos =>
      cases hid : e.invocationId
      case none => simpa [List.filter_cons, LedgerEntry.isAdjustmentUnder, hk, hid] using hi
      case some id =>
        by_cases he : id = key
        case pos => simpa [List.filter_cons, LedgerEntry.isAdjustmentUnder, hk, hid, he] using hi
        case neg => simpa [List.filter_cons, LedgerEntry.isAdjustmentUnder, hk, hid, he] using hi

-- The number an event's id ends in.
def eventNumber (id : String) : String := .ofList (id.toList.reverse.takeWhile (· ≠ '-')).reverse

theorem eventNumber_eventId : eventNumber (eventId action cardId now n) = toString n := by
  have hd : ∀ c ∈ (toString n).toList.reverse, decide (c ≠ '-') = true := by
    intro c hc
    have hc : c ∈ Nat.toDigits 10 n := by simpa [Nat.repr] using hc
    have := Nat.isDigit_of_mem_toDigits (by decide) (by decide) hc
    by_contra h
    simp_all
  simp only [eventNumber, eventId, String.toList_append, List.reverse_append, List.append_assoc]
  rw [List.takeWhile_append_of_pos hd]
  simp [Nat.repr]

theorem nodup_toList {o : Option α} : o.toList.Nodup := by
  cases o <;> simp

-- No operation records two adjustments under one id.
theorem nodup_adjustmentIds [Host F] {op : Op F} : (op.adjustmentIds t).Nodup := by
  unfold Op.adjustmentIds
  split
  case h_1 cardIds _ _ _ now =>
    refine .of_map eventNumber ?_
    rw [List.map_map]
    have h : ((cardIds.foldl pushNew []).zipIdx t.ledger.length).map (eventNumber ∘ fun x =>
        eventId "extend_validity" x.1 now x.2) =
        (((cardIds.foldl pushNew []).zipIdx t.ledger.length).map Prod.snd).map toString := by
      rw [List.map_map]
      exact List.map_congr_left fun _ _ => eventNumber_eventId
    rw [h, List.zipIdx_map_snd]
    exact (List.nodup_range' ..).map fun _ _ => Nat.repr_injective
  case h_2 => exact Option.toList_map .. ▸ nodup_toList
  case h_3 => exact nodup_toList

end

namespace Engine

variable [F64 F] [Host F] {e e' : Engine F} {io : Io} {op : Op F} {key : String}

-- What was saved was recorded as it is in memory.
structure Recorded (e : Engine F) (s : Tables F) : Prop where
  ledger      : s.ledger = e.tables.ledger
  adjustments : s.archivedLedgerSummary.adjustments = e.tables.archivedLedgerSummary.adjustments

def Matches (e : Engine F) : Prop := ∀ ⦃s⦄, e.disk = some s → e.Recorded s.tables

omit [F64 F] [Host F] in
theorem Matches.congr (h : e.Matches) (hd : e'.disk = e.disk)
    (hl : e'.tables.ledger = e.tables.ledger)
    (ha : e'.tables.archivedLedgerSummary.adjustments = e.tables.archivedLedgerSummary.adjustments) :
    e'.Matches := by
  intro s hs
  have ⟨hl', ha'⟩ := h (hd ▸ hs)
  exact ⟨hl'.trans hl.symm, ha'.trans ha.symm⟩

omit [F64 F] [Host F] in
theorem Matches.of_saved (h : e'.disk = some (e.snapshotOf io e'.tables)) : e'.Matches := by
  intro s hs
  rw [h, Option.some.injEq] at hs
  subst hs
  exact ⟨rfl, rfl⟩

omit [F64 F] [Host F] in
theorem recovered_recorded (t : Tables F) : t.recovered.ledger = t.ledger ∧
    t.recovered.archivedLedgerSummary.adjustments = t.archivedLedgerSummary.adjustments := by
  simp only [Tables.recovered, Tables.restoreTemplateInvocations, true_and]
  split <;> rfl

omit [F64 F] in
theorem restart_recorded : e.Recorded (e.restart io).tables :=
  ⟨(recovered_recorded _).left, (recovered_recorded _).right⟩

omit [F64 F] in
-- Starting again from what was saved finds what was recorded.
theorem Matches.reload (h : e.Matches) : e.Recorded e.reload.tables := by
  cases hd : e.disk
  case none =>
    rw [Engine.reload, hd]
    exact ⟨rfl, rfl⟩
  case some s =>
    obtain ⟨hl, ha⟩ := h hd
    rw [Engine.reload, hd]
    exact ⟨(recovered_recorded _).left.trans hl, (recovered_recorded _).right.trans ha⟩

theorem Matches.exec (hp : e.persistent) (hk : e.tables.Keyed) (h : e.Matches) :
    (e.exec io op).Matches := by
  by_cases hop : op.isCommitting
  case pos =>
    have h' : e.Agrees io (e.outcome io op) (e.exec io op) ∨ _ := exec_agrees hp hk hop
    cases h'
    case inl ha =>
      generalize e.outcome io op = r at ha
      cases ha
      case unchanged hu => exact h.congr hu.disk (by rw [hu.tables]) (by rw [hu.tables])
      case saved hs => exact .of_saved hs
    case inr ha =>
      obtain ⟨_, _, _, _, _, _, _, _, hl⟩ := ha
      obtain ⟨p, ht⟩ := hl.tables
      cases hl.disk
      case inl hd => exact h.congr hd (by rw [ht]; rfl) (by rw [ht]; rfl)
      case inr hd => exact .of_saved hd
  case neg =>
    cases op
    case reserve cardId id p now ttl =>
      obtain ⟨hd, ht⟩ : (e.reserve cardId id p now ttl).2.disk = e.disk ∧ _ := reserve_disk e
      exact h.congr hd (by rw [Engine.exec, ht]) (by rw [Engine.exec, ht])
    case release id =>
      obtain ⟨hd, ht⟩ : (e.release id).2.disk = e.disk ∧ _ := release_disk e
      exact h.congr hd (by rw [Engine.exec, ht]) (by rw [Engine.exec, ht])
    case beginResponseTemplateWait =>
      simp only [Engine.exec, beginResponseTemplateWait]
      split <;> exact h.congr rfl rfl rfl
    case dropWaitSlot => exact h.congr rfl rfl rfl
    case protect => exact h.congr rfl rfl rfl
    case restart => exact h.congr rfl restart_recorded.ledger restart_recorded.adjustments
    case reload =>
      obtain ⟨hl, ha⟩ := h.reload
      refine h.congr ?_ hl ha
      simp only [Engine.exec, Engine.reload]
      split <;> rfl
    all_goals exact absurd rfl hop

-- What is asked for under a key that an adjustment was recorded under before is answered or refused.
section

variable {a : BalanceAdjustment} {u : CardUpgrade} {entry : LedgerEntry F} {card : Card}

omit [F64 F] in
theorem adjustCardBalance_answers {index : CompensationIndex} {t : Tables F}
    {archives : List (List (LedgerEntry F))} (hk : a.idempotencyKey = some key)
    (hu : t.adjustmentUnder key = some entry)
    (h : t.adjustCardBalance (parseJson F) index archives a = .ok txn) :
    txn = .answer entry ∧ a.Valid ∧ a.IsReplay (parseJson F) entry := by
  have ⟨hv, h⟩ := adjustCardBalance_eq_ok.mp h
  cases h
  case replay hk' hu' hr =>
    rw [hk, Option.some.injEq] at hk'
    subst hk'
    rw [hu, Option.some.injEq] at hu'
    subst hu'
    exact ⟨rfl, hv, hr⟩
  case adjust hn _ _ _ _ =>
    rw [hk, Option.bind_some, hu] at hn
    cases hn

theorem upgradeCard_answers {t : Tables F} (hk : u.idempotencyKey = some key)
    (hu : t.adjustmentUnder key = some entry) (h : t.upgradeCard (parseJson F) u = .ok txn) :
    ∃ card, txn = .answer card ∧ t.cards.lookup u.cardId = some card ∧ u.Valid ∧
      u.IsReplay (parseJson F) entry := by
  have ⟨hv, h⟩ := upgradeCard_goes h
  cases h
  case replay hk' hu' hr hf =>
    rw [hk, Option.some.injEq] at hk'
    subst hk'
    rw [hu, Option.some.injEq] at hu'
    subst hu'
    exact ⟨_, rfl, hf, hv, hr⟩
  case upgrade hn _ _ _ =>
    rw [hk, Option.bind_some, hu] at hn
    cases hn

omit [F64 F] in
theorem adjustCardBalance_replayed (hk : a.idempotencyKey = some key)
    (hu : e.tables.adjustmentUnder key = some entry) (hv : a.Valid)
    (hr : a.IsReplay (parseJson F) entry) : e.adjustCardBalance io a = (.ok entry, e) := by
  have h : e.tables.adjustCardBalance (parseJson F) e.compensations e.archives a =
      .ok (.answer entry) := adjustCardBalance_eq_ok.mpr ⟨hv, .replay hk hu hr⟩
  simp only [adjustCardBalance, h]
  rfl

omit [F64 F] in
theorem adjustCardBalance_refused (hk : a.idempotencyKey = some key)
    (hu : e.tables.adjustmentUnder key = some entry) (hn : ¬a.IsReplay (parseJson F) entry) :
    ∃ err, e.adjustCardBalance io a = (.error err, e) := by
  cases h : e.tables.adjustCardBalance (parseJson F) e.compensations e.archives a
  case error err =>
    refine ⟨err, ?_⟩
    simp only [adjustCardBalance, h]
    rfl
  case ok => exact absurd (adjustCardBalance_answers hk hu h).right.right hn

theorem upgradeCard_replayed (hk : u.idempotencyKey = some key)
    (hu : e.tables.adjustmentUnder key = some entry) (hv : u.Valid)
    (hr : u.IsReplay (parseJson F) entry) (hf : e.tables.cards.lookup u.cardId = some card) :
    e.upgradeCard io u = (.ok card, e) := by
  simp only [upgradeCard, hv.replays hk hu hr hf]
  rfl

theorem upgradeCard_refused (hk : u.idempotencyKey = some key)
    (hu : e.tables.adjustmentUnder key = some entry) (hn : ¬u.IsReplay (parseJson F) entry) :
    ∃ err, e.upgradeCard io u = (.error err, e) := by
  cases h : e.tables.upgradeCard (parseJson F) u
  case error err =>
    refine ⟨err, ?_⟩
    simp only [upgradeCard, h]
    rfl
  case ok =>
    obtain ⟨_, _, _, _, hr⟩ := upgradeCard_answers hk hu h
    exact absurd hr hn

theorem exec_of_recorded (hk : op.idempotencyKey = some key)
    (hu : e.tables.adjustmentUnder key = some entry) : e.exec io op = e := by
  cases op
  case adjustCardBalance a =>
    simp only [exec, adjustCardBalance]
    cases h : e.tables.adjustCardBalance (parseJson F) e.compensations e.archives a
    case error => rfl
    case ok =>
      obtain ⟨h, _⟩ := adjustCardBalance_answers hk hu h
      rw [h]
      rfl
  case upgradeCard u =>
    simp only [exec, upgradeCard]
    cases h : e.tables.upgradeCard (parseJson F) u
    case error => rfl
    case ok =>
      obtain ⟨_, h, _⟩ := upgradeCard_answers hk hu h
      rw [h]
      rfl
  all_goals cases hk

end

omit [F64 F] in
theorem transact_tables {txn : Result (Txn F α)} (hp : Publishes e.tables txn) :
    (e.transact io txn).2.tables = e.tables ∨
      ∃ c pub a, txn = .ok (.write c pub a) ∧ e.Committed io c (e.transact io txn).2 := by
  have ht := transact_cases io hp
  generalize (e.transact io txn).1 = r at ht
  generalize (e.transact io txn).2 = e' at ht ⊢
  cases ht
  case refused => exact .inl rfl
  case answered => exact .inl rfl
  case unsaved hu => exact .inl hu.tables
  case committed hc => exact .inr ⟨_, _, _, rfl, hc⟩

omit [F64 F] [Host F] in
theorem archiveLedger_publishes (t : Tables F) (before : Nat) (receipt : ArchivedLedgerReceipt) :
    Publishes t (.ok (.write (t.withArchive before receipt)
      (Tables.publishArchive (t.withArchive before receipt) receipt) receipt)) := by
  intro _ _ _ h
  cases h
  rfl

omit [F64 F] in
theorem archiveLedger_cases : (e.archiveLedger io before).2.tables = e.tables ∨
    ∃ receipt, (e.archiveLedger io before).2.tables = e.tables.withArchive before receipt := by
  simp only [archiveLedger]
  split
  case h_2 => exact .inl rfl
  case h_3 => exact .inl rfl
  case h_1 txn ht _ =>
    simp only [Tables.archiveLedger, bind_eq_ok', exists_unit, pure_eq_ok] at ht
    obtain ⟨_, ht⟩ := ht
    subst ht
    let files := e.archiveFiles.insert (e.archiveReceipt io before).archiveFile
      (e.tables.archived before)
    have h : (Engine.transact { e with archiveFiles := files } io _).2.tables = e.tables ∨ _ :=
      transact_tables (archiveLedger_publishes e.tables before (e.archiveReceipt io before))
    cases h
    case inl h => exact .inl h
    case inr h =>
      obtain ⟨_, _, _, hw, hc⟩ := h
      cases hw
      exact .inr ⟨_, hc.tables_eq rfl⟩

-- What an operation records.
def recorded (e : Engine F) (io : Io) (op : Op F) : List (LedgerEntry F) :=
  (e.exec io op).tables.ledger.drop e.tables.ledger.length

-- An operation that clashes with nothing recorded under a key records at most one adjustment under it,
-- and keeps the one that was.
theorem exec_recordedUnder (hk : e.tables.Keyed) (hm : op = .reload → e.Matches)
    (hc : ¬op.Clashes e.tables key) (h : (e.tables.recordedUnder key).length ≤ 1) :
    (e.exec io op).tables.recordedUnder key =
      e.tables.recordedUnder key ++ adjustmentsUnder key (e.recorded io op) ∧
    ((e.exec io op).tables.recordedUnder key).length ≤ 1 := by
  have kept (hr : e.Recorded (e.exec io op).tables) : (e.exec io op).tables.recordedUnder key =
      e.tables.recordedUnder key ++ adjustmentsUnder key (e.recorded io op) ∧
      ((e.exec io op).tables.recordedUnder key).length ≤ 1 := by
    rw [Tables.recordedUnder_congr hr.ledger hr.adjustments, recorded, hr.ledger]
    simpa [adjustmentsUnder] using h
  by_cases hop : op.appends
  case pos =>
    obtain ⟨es, (⟨ha, _⟩ : Appended e op es (e.exec io op))⟩ := exec_appended hk hop
    have hes : e.recorded io op = es := by simp [recorded, ha.ledger]
    cases hu : e.tables.adjustmentUnder key
    case none =>
      have hn := Tables.adjustmentUnder_eq_none.mp hu
      have hl : e.tables.archivedLedgerSummary.adjustments.lookup key = none := by
        simp only [Tables.recordedUnder, List.append_eq_nil_iff] at hn
        simpa using hn.right
      have hle : (adjustmentsUnder key es).length ≤ 1 := by
        rw [length_adjustmentsUnder]
        exact (ha.ids.count_le key).trans (List.nodup_iff_count_le_one.mp nodup_adjustmentIds key)
      have he : (e.exec io op).tables.recordedUnder key = adjustmentsUnder key es := by
        have hn : adjustmentsUnder key e.tables.ledger = [] := by
          simp only [Tables.recordedUnder, List.append_eq_nil_iff] at hn
          exact hn.left
        simp [Tables.recordedUnder, ha.ledger, ha.archived, hl, hn]
      rw [he, hes, hn]
      exact ⟨rfl, hle⟩
    case some entry =>
      by_cases hkey : op.idempotencyKey = some key
      case pos => exact kept (by rw [exec_of_recorded hkey hu]; exact ⟨rfl, rfl⟩)
      case neg =>
        have hno : key ∉ op.adjustmentIds e.tables := fun hi => hc ⟨by simp [hu], hkey, hi⟩
        have hnil : adjustmentsUnder key es = [] := by
          refine List.eq_nil_of_length_eq_zero ?_
          rw [length_adjustmentsUnder]
          exact List.count_eq_zero.mpr fun hi => hno (ha.ids.subset hi)
        have he : (e.exec io op).tables.recordedUnder key = e.tables.recordedUnder key := by
          simp [Tables.recordedUnder, ha.ledger, ha.archived, hnil]
        rw [he, hes, hnil]
        exact ⟨(List.append_nil _).symm, h⟩
  case neg =>
    cases op
    case archiveLedger before =>
      have hcs : (e.archiveLedger io before).2.tables = e.tables ∨
          ∃ receipt, (e.archiveLedger io before).2.tables = e.tables.withArchive before receipt :=
        archiveLedger_cases
      cases hcs
      case inl ht => exact kept ⟨by rw [exec, ht], by rw [exec, ht]⟩
      case inr ht =>
        obtain ⟨receipt, ht⟩ := ht
        have hd : e.recorded io (.archiveLedger before) = [] := by
          refine List.drop_eq_nil_of_le ?_
          rw [exec, ht]
          exact List.length_filter_le ..
        rw [exec, ht, Tables.recordedUnder_archive h, hd]
        exact ⟨(List.append_nil _).symm, h⟩
    case restart => exact kept restart_recorded
    case reload => exact kept (hm rfl).reload
    all_goals exact absurd rfl hop

-- What a run records.
def committed (e : Engine F) : List (Label F) → List (LedgerEntry F)
  | []      => []
  | l :: ls => e.recorded l.io l.op ++ (e.exec l.io l.op).committed ls

-- Entries are filed under what they are about, and what was saved is as it is in memory.
structure Consistent (e : Engine F) : Prop where
  keyed   : e.Invariant Tables.Keyed
  saved   : e.persistent → e.Matches

theorem Consistent.exec (h : e.Consistent) : (e.exec io op).Consistent where
  keyed   := h.keyed.exec (fun hk => hk) fun _ hk hs => hs.keyed hk
  saved hp := by
    rw [exec_persistent] at hp
    exact (h.saved hp).exec hp h.keyed.live

omit [F64 F] [Host F] in
theorem Started.consistent (h : e.Started) : e.Consistent where
  keyed   := h.invariant.mono (·.keyed)
  saved _ _ hs := by
    have hf := h.saved hs
    exact ⟨hf.ledger.trans h.fresh.ledger.symm, hf.adjustments.trans h.fresh.adjustments.symm⟩

-- Steps that don't clash with what is recorded under a key.
def Unclashing (key : String) (e : Engine F) (l : Label F) (e' : Engine F) : Prop :=
  ¬l.op.Clashes e.tables key ∧ Step e l e'

-- A run records at most one adjustment under a key, and keeps the one that was.
theorem run_recordedUnder {ls : List (Label F)} (run : Run (Unclashing key) e ls e')
    (hc : e.Consistent) (hr : e.persistent ∨ ∀ l ∈ ls, l.op ≠ .reload)
    (h : (e.tables.recordedUnder key).length ≤ 1) :
    e'.tables.recordedUnder key = e.tables.recordedUnder key ++ adjustmentsUnder key (e.committed ls) ∧
    (e'.tables.recordedUnder key).length ≤ 1 := by
  induction run
  case nil => exact ⟨by simp [committed, adjustmentsUnder], h⟩
  case cons e l e₁ ls e' hl _ hi =>
    have ⟨hclash, hs⟩ := hl
    subst hs
    have hm : l.op = .reload → e.Matches := by
      intro he
      cases hr
      case inl hp => exact hc.saved hp
      case inr hr => exact absurd he (hr l (.head _))
    have ⟨h₁, h₂⟩ : (e.exec l.io l.op).tables.recordedUnder key = _ ∧ _ :=
      exec_recordedUnder hc.keyed.live hm hclash h
    have hr' : (e.exec l.io l.op).persistent ∨ ∀ l ∈ ls, l.op ≠ .reload := by
      rw [exec_persistent]
      exact hr.imp (fun h => h) fun h l hl => h l (.tail _ hl)
    have ⟨h₃, h₄⟩ := hi hc.exec hr' h₂
    refine ⟨?_, h₄⟩
    rw [h₃, h₁, committed, adjustmentsUnder_append, List.append_assoc]

theorem run_kept {ls : List (Label F)} {entry : LedgerEntry F} (run : Run (Unclashing key) e ls e')
    (hc : e.Consistent) (hr : e.persistent ∨ ∀ l ∈ ls, l.op ≠ .reload)
    (h : e.tables.recordedUnder key = [entry]) : e'.tables.recordedUnder key = [entry] := by
  have ⟨he, hl⟩ := run_recordedUnder run hc hr (by simp [h])
  rw [h] at he
  rw [he] at hl ⊢
  have hn : adjustmentsUnder key (e.committed ls) = [] := by
    refine List.eq_nil_of_length_eq_zero ?_
    simp only [List.length_append, List.length_singleton] at hl
    omega
  rw [hn, List.append_nil]

theorem eq_execAll {ls : List (Label F)} (run : Run Step e ls e') : e' = e.execAll ls := by
  induction run
  case nil => rfl
  case cons h _ hi =>
    subst h
    exact hi

-- Adjustments under a key that ask for what was recorded under it are answered with that, others and
-- upgrades are refused, and nothing changes.
structure ReplaysAdjustment (e : Engine F) (key : String) (a : BalanceAdjustment)
    (entry : LedgerEntry F) : Prop where
  same      : ∀ {io b}, b.idempotencyKey = some key → a.Same b →
    e.adjustCardBalance io b = (.ok entry, e)
  different : ∀ {io b}, b.idempotencyKey = some key → ¬a.Same b →
    ∃ err, e.adjustCardBalance io b = (.error err, e)
  upgrade   : ∀ {io u}, u.idempotencyKey = some key → ∃ err, e.upgradeCard io u = (.error err, e)

-- Upgrades under a key that ask for what was recorded under it are answered with the card as it is, others
-- and adjustments are refused, and nothing changes.
structure ReplaysUpgrade (e : Engine F) (key : String) (u : CardUpgrade) (groupId : String) :
    Prop where
  same       : ∀ {io v}, v.idempotencyKey = some key → u.Same v groupId →
    ∃ card, e.tables.cards.lookup v.cardId = some card ∧ e.upgradeCard io v = (.ok card, e)
  different  : ∀ {io v}, v.idempotencyKey = some key → ¬u.Same v groupId →
    ∃ err, e.upgradeCard io v = (.error err, e)
  adjustment : ∀ {io a}, a.idempotencyKey = some key →
    ∃ err, e.adjustCardBalance io a = (.error err, e)

section

variable {a : BalanceAdjustment} {u : CardUpgrade} {entry : LedgerEntry F} {card : Card}

-- The first adjustment under a key is recorded under it.
theorem adjustCardBalance_first (hk : a.idempotencyKey = some key)
    (hn : e.tables.adjustmentUnder key = none) (h : (e.adjustCardBalance io a).1 = .ok entry) :
    (e.exec io (.adjustCardBalance a)).tables.recordedUnder key = [entry] ∧
      a.IsReplay (parseJson F) entry ∧ a.Valid ∧ entry.exposedModel ≠ upgradeEvent := by
  simp only [exec]
  have hc : Adjusting e io a _ (e.adjustCardBalance io a).2 := adjustCardBalance_cases
  rw [h] at hc
  generalize (e.adjustCardBalance io a).2 = e' at hc ⊢
  cases hc
  case replayed hk' hu _ =>
    rw [hk, Option.some.injEq] at hk'
    rw [← hk', hn] at hu
    cases hu
  case adjusted card card' e' hv _ _ _ _ hcom _ =>
    refine ⟨?_, hv.isReplay, hv, by simp [BalanceAdjustment.entry, adjustmentEntry, upgradeEvent]⟩
    have hrec := Tables.adjustmentUnder_eq_none.mp hn
    simp only [Tables.recordedUnder, List.append_eq_nil_iff] at hrec
    simp only [Tables.recordedUnder]
    rw [hcom.tables_eq rfl]
    simp only [Tables.withCard, adjustmentsUnder_append, hrec.left, hrec.right]
    simp [adjustmentsUnder, LedgerEntry.isAdjustmentUnder, BalanceAdjustment.entry, adjustmentEntry,
      hk]

-- What the first upgrade under a key is recorded as.
structure FirstUpgrade (e : Engine F) (key : String) (u : CardUpgrade) (groupId : String)
    (entry : LedgerEntry F) : Prop where
  recorded : e.tables.recordedUnder key = [entry]
  replays  : u.IsReplay (parseJson F) entry
  valid    : u.Valid
  group    : (((entry.eventDetail (parseJson F)).getD .null).get? "groupId").bind Json.asStr? =
    some groupId
  event    : entry.exposedModel = upgradeEvent

theorem upgradeCard_first (hk : u.idempotencyKey = some key)
    (hn : e.tables.adjustmentUnder key = none) (h : (e.upgradeCard io u).1 = .ok card) :
    u.cardId ∈ e.tables.cards ∧
      ∃ entry, FirstUpgrade (e.exec io (.upgradeCard u)) key u card.groupId entry := by
  have hp : Publishes e.tables (e.tables.upgradeCard (parseJson F) u) :=
    (Commits.of_post upgradeCard_posts).publishes
  simp only [exec, upgradeCard] at h ⊢
  generalize ht : e.transact io (e.tables.upgradeCard (parseJson F) u) = res at h ⊢
  obtain ⟨r, e'⟩ := res
  cases h
  cases transact_eq_ok hp ht
  case inl ha =>
    obtain ⟨_, hg⟩ := upgradeCard_goes ha.left
    cases hg
    case replay hk' hu _ _ =>
      rw [hk, Option.some.injEq] at hk'
      rw [← hk', hn] at hu
      cases hu
  case inr hw =>
    obtain ⟨c, pub, hw, hcom⟩ := hw
    obtain ⟨hv, hg⟩ := upgradeCard_goes hw
    generalize htxn : Txn.write c pub card = txn at hg
    cases hg
    case replay => cases htxn
    case upgrade extended extension old plan _ hf hplan _ =>
      cases htxn
      have hid : plan.id = u.planId := by simpa using List.find?_some hplan
      refine ⟨mem_of_lookup hf, u.entry e.tables plan old extended extension, ?_⟩
      obtain ⟨hm, _, _, hd⟩ := upgradeEntry_fields (F := F) e.tables.ledger.length u
        (Text.trim u.operatorId) (Text.trim u.reason)
        (upgradeDetail u plan (u.targetGroup plan) old extended extension (u.snapshot plan))
      obtain ⟨_, hkind, _, hi⟩ := upgradeEntry_spec (F := F) e.tables.ledger.length u
        (Text.trim u.operatorId) (Text.trim u.reason)
        (upgradeDetail u plan (u.targetGroup plan) old extended extension (u.snapshot plan))
      constructor
      case replays => exact hv.isReplay hid
      case valid => exact hv
      case event => exact hm
      case group =>
        obtain ⟨_, _, _, hgroup⟩ := upgradeDetail_fields u plan (u.targetGroup plan) old extended
          extension (u.snapshot plan)
        simp only [CardUpgrade.entry, LedgerEntry.eventDetail, hd, Option.getD_some, hgroup]
        rfl
      case recorded =>
        have hrec := Tables.adjustmentUnder_eq_none.mp hn
        simp only [Tables.recordedUnder, List.append_eq_nil_iff] at hrec
        simp only [Tables.recordedUnder]
        rw [hcom.tables_eq rfl]
        simp only [Tables.withCard, adjustmentsUnder_append, hrec.left, hrec.right]
        simp [adjustmentsUnder, LedgerEntry.isAdjustmentUnder, CardUpgrade.entry, hkind, hi, hk]

omit [F64 F] in
theorem not_isReplay_upgrade (h : entry.exposedModel ≠ upgradeEvent) :
    ¬u.IsReplay (parseJson F) entry := by
  simp [CardUpgrade.IsReplay, isSameUpgrade, h]

omit [F64 F] in
theorem not_isReplay_adjustment (h : entry.exposedModel = upgradeEvent) :
    ¬a.IsReplay (parseJson F) entry := by
  simp [BalanceAdjustment.IsReplay, isSameAdjustment, adjustmentKind, h]

theorem replaysAdjustment (hu : e.tables.adjustmentUnder key = some entry) (hv : a.Valid)
    (hr : a.IsReplay (parseJson F) entry) (hm : entry.exposedModel ≠ upgradeEvent) :
    e.ReplaysAdjustment key a entry where
  same hk hs      := adjustCardBalance_replayed hk hu (hv.of_same hs) (hr.iff_same.mpr hs)
  different hk hs := adjustCardBalance_refused hk hu fun h => hs (hr.iff_same.mp h)
  upgrade hk      := upgradeCard_refused hk hu (not_isReplay_upgrade hm)

theorem FirstUpgrade.replaysUpgrade {e₁ : Engine F} (h : FirstUpgrade e₁ key u groupId entry)
    (hu : e.tables.adjustmentUnder key = some entry) (hc : u.cardId ∈ e.tables.cards) :
    e.ReplaysUpgrade key u groupId where
  same hk hs := by
    have ⟨card, hf⟩ := mem_iff_lookup.mp (hs.card ▸ hc)
    refine ⟨card, hf, upgradeCard_replayed hk hu ?_ ((h.replays.iff_same h.group).mpr hs) hf⟩
    have hv := h.valid
    exact ⟨hs.operator ▸ hv.operator, hs.reason ▸ hv.reason, hs.credits ▸ hv.credits,
      hs.cash ▸ hv.cash⟩
  different hk hs := upgradeCard_refused hk hu fun hr =>
    hs ((h.replays.iff_same h.group).mp hr)
  adjustment hk   := adjustCardBalance_refused hk hu (not_isReplay_adjustment h.event)

end

-- The cards an engine starts with are the cards it has.
theorem Started.mem_cards {e₀ : Engine F} {ls : List (Label F)} (h : e₀.Started)
    (run : Run Step e₀ ls e) : k ∈ e.tables.cards ↔ k ∈ e₀.tables.cards := by
  let P (t : Tables F) := t.Keyed ∧ (k ∈ t.cards ↔ k ∈ e₀.tables.cards)
  have h₀ : e₀.Invariant P :=
    ⟨⟨h.fresh.keyed, Iff.rfl⟩, fun hs => ⟨(h.saved hs).keyed, by rw [h.same hs]⟩⟩
  exact (h₀.run (·.left) (fun hp hs => ⟨hs.keyed hp.left, (hs.mem_cards hp.left).trans hp.right⟩)
    run).live.right

end Engine

section

variable [F64 F] [Host F] {e₀ e : Engine F} {ls : List (Engine.Label F)} {key : String}

end

-- A gift under a key, or under none.
def BalanceAdjustment.keyed (key : Option String) (now : Nat) : BalanceAdjustment where
  cardId            := "card-1"
  deltaMicroCredits := 1000000
  operatorId        := "operator"
  reason            := "a gift"
  nowSecs           := now
  idempotencyKey    := key

end Billing
