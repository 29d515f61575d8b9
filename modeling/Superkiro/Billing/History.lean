import Superkiro.Lib.Filing
import Superkiro.Lib.JsonEq
import Superkiro.Lib.SortByKey
import Superkiro.Billing.Conservation
import Superkiro.Billing.Idempotency

namespace Billing

open Except Host

-- What happened to a card.
structure CardEvent where
  tsSecs       : Nat
  action       : String
  credits      : I64
  operator     : Option String := none
  reason       : Option String := none
  invocationId : Option String := none
  detail       : Option Json := none
  deriving DecidableEq

def eventActions : List (String × String) := [
  ("void_card", "void"),
  ("archive_card", "archive"),
  ("unarchive_card", "unarchive"),
  ("freeze_card", "freeze"),
  ("unfreeze_card", "unfreeze"),
  ("ban_card", "ban"),
  ("unban_card", "unban"),
  ("unbind_device", "unbind"),
  ("reset_rebinds", "rebinds_reset"),
  ("extend_validity", "extend"),
  ("note_card", "note"),
  ("change_group", "group"),
  ("change_quotas", "quotas"),
  ("rekey_card", "rekey"),
  (upgradeEvent, "upgrade")
]

namespace LedgerEntry

variable {F : Type} (e : LedgerEntry F)

def eventAction : Option String :=
  match e.kind with
  | .usage      => none
  | .topup      => some "topup"
  | .adjustment => some ((eventActions.lookup e.exposedModel).getD "adjust")

-- A change that records more than who and why keeps it as an object.
def eventFields (parse : String → Option Json) : List (String × Json) :=
  match e.eventDetail parse with
  | some (.obj fields) => fields
  | _                  => []

def event (parse : String → Option Json) : Option CardEvent :=
  e.eventAction.map fun action =>
    let fields := e.eventFields parse
    let detail := fields.filter (·.1 ≠ "invocationId")
    { tsSecs       := e.tsSecs
      action       := action
      credits      := e.creditsCharged
      operator     := e.operatorId
      reason       := e.reason
      invocationId := ((Json.obj fields).get? "invocationId").bind Json.asStr?
      detail       := if detail.isEmpty then none else some (.obj detail) }

def eventOf (parse : String → Option Json) (cardId : String) : Option CardEvent :=
  if e.cardId = cardId then e.event parse else none

-- What an archived entry is kept under.
def archiveKey : Option String := if e.kind = .adjustment then e.invocationId else none

-- Whether an entry is an event of a card.
def Tells (cardId : String) : Prop := e.cardId = cardId ∧ e.kind ≠ .usage

instance (cardId : String) : Decidable (e.Tells cardId) := inferInstanceAs (Decidable (_ ∧ _))

end LedgerEntry

-- When a card was issued and activated. Cards made for tests and seeds carry no issue time.
def Card.milestones (c : Card) : List CardEvent :=
  (if 0 < c.createdAt then [⟨c.createdAt, "issued", c.issuedCredits.getD 0, none, none, none, none⟩]
    else []) ++
  c.activatedAt.toList.map fun at' => ⟨at', "activated", 0, none, none, none, none⟩

def historyLimit : Nat := 500

namespace Tables

variable {F : Type} (parse : String → Option Json) (t : Tables F) (cardId : String)

-- The archived adjustments come in the order they are listed in, which their table leaves open.
def cardEvents (listed : List (LedgerEntry F)) (c : Card) : List CardEvent :=
  c.milestones ++ listed.filterMap (·.eventOf parse cardId) ++
    t.ledger.filterMap (·.eventOf parse cardId)

-- Newest first.
def cardHistory (listed : List (LedgerEntry F)) : Option (List CardEvent) :=
  (t.cards.lookup cardId).map fun c =>
    ((t.cardEvents parse cardId listed c).sortByKey (·.tsSecs)).reverse.take historyLimit

-- What was archived of a card and what an archive adds to it.
def archivedEvents (before : Nat) : List CardEvent :=
  (t.archivedLedgerSummary.adjustments.values ++ t.archived before).filterMap
    (·.eventOf parse cardId)

-- An archive that keeps a card's history: what it archives of the card has ids, none of them that of
-- another archived adjustment, and what is archived of the card is apart in time.
structure Lasting (before : Nat) : Prop where
  files : AList.Files LedgerEntry.archiveKey (·.Tells cardId)
    t.archivedLedgerSummary.adjustments (t.archived before)
  alone : ∀ a ∈ t.archivedEvents parse cardId before, ∀ b ∈ t.archivedEvents parse cardId before,
    a.tsSecs = b.tsSecs → a = b

variable {parse : String → Option Json} {t t' : Tables F} {cardId : String}
variable {listed : List (LedgerEntry F)}

theorem tells_iff (e : LedgerEntry F) : e.Tells cardId ↔ (e.eventOf parse cardId).isSome := by
  unfold LedgerEntry.Tells LedgerEntry.eventOf
  split
  case isTrue h =>
    cases hk : e.kind <;> simp [h, LedgerEntry.event, LedgerEntry.eventAction, hk]
  case isFalse h => simp [h]

theorem tsSecs_eventOf {e : LedgerEntry F} (h : e.eventOf parse cardId = some event) :
    event.tsSecs = e.tsSecs := by
  unfold LedgerEntry.eventOf at h
  split at h
  case isTrue =>
    have ⟨_, _, h⟩ := Option.map_eq_some_iff.mp h
    exact h ▸ rfl
  case isFalse => cases h

-- What is kept under the archived adjustments' ids.
theorem adjustments_archive (before : Nat) (receipt : ArchivedLedgerReceipt) :
    (t.withArchive before receipt).archivedLedgerSummary.adjustments =
      t.archivedLedgerSummary.adjustments.file LedgerEntry.archiveKey (t.archived before) := by
  have hf (es : List (LedgerEntry F)) (s : ArchivedLedgerSummary F) :
      (es.foldl ArchivedLedgerSummary.includeEntry s).adjustments =
        s.adjustments.file LedgerEntry.archiveKey es := by
    induction es generalizing s
    case nil => rfl
    case cons e es hi =>
      rw [List.foldl_cons, hi, AList.file, AList.file, List.foldl_cons]
      congr 1
      cases hk : e.kind <;> cases hid : e.invocationId <;>
        simp [ArchivedLedgerSummary.includeEntry, AList.fileOne, LedgerEntry.archiveKey, hk, hid]
  exact hf _ _

-- A second's entries are archived together, or kept.
theorem withKey_ledger (before n : Nat) :
    (t.ledger.filterMap (·.eventOf parse cardId)).withKey CardEvent.tsSecs n =
      ((t.archived before).filterMap (·.eventOf parse cardId)).withKey CardEvent.tsSecs n ++
        ((t.kept before).filterMap (·.eventOf parse cardId)).withKey CardEvent.tsSecs n := by
  have hs (e : LedgerEntry F) (event) (h : e.eventOf parse cardId = some event) := tsSecs_eventOf h
  have ha := List.withKey_filterMap_filter hs (· < before) t.ledger n
  have hk := List.withKey_filterMap_filter hs (before ≤ ·) t.ledger n
  rw [archived, kept, ha, hk]
  by_cases hn : n < before
  case pos => simp [hn, Nat.not_le.mpr hn]
  case neg => simp [hn, Nat.not_lt.mp hn]

-- The archived adjustments are listed with what's archived of the card, each second in its order.
theorem archive_events_iff {c : Card} (hl : t'.ledger = t.kept before) {listed' : List (LedgerEntry F)} :
    (t'.cardEvents parse cardId listed' c).sortByKey (·.tsSecs) =
      (t.cardEvents parse cardId listed c).sortByKey (·.tsSecs) ↔
    ∀ n, (listed'.filterMap (·.eventOf parse cardId)).withKey CardEvent.tsSecs n =
      ((listed ++ t.archived before).filterMap (·.eventOf parse cardId)).withKey CardEvent.tsSecs n := by
  rw [List.sortByKey_eq_iff]
  apply forall_congr'
  intro n
  simp only [cardEvents, List.withKey_append, hl, withKey_ledger before n, List.filterMap_append,
    List.append_assoc, List.append_cancel_left_eq]
  rw [← List.append_assoc, List.append_cancel_right_eq]

theorem lasting_iff (before : Nat) (receipt : ArchivedLedgerReceipt)
    (hl : listed.Perm t.archivedLedgerSummary.adjustments.values) :
    (∀ n, ∀ listed' : List (LedgerEntry F),
      listed'.Perm (t.withArchive before receipt).archivedLedgerSummary.adjustments.values →
      (listed'.filterMap (·.eventOf parse cardId)).withKey CardEvent.tsSecs n =
        ((listed ++ t.archived before).filterMap (·.eventOf parse cardId)).withKey
          CardEvent.tsSecs n) ↔ t.Lasting parse cardId before := by
  have hp : ((listed ++ t.archived before).filterMap (·.eventOf parse cardId)).Perm
      (t.archivedEvents parse cardId before) := (hl.append_right _).filterMap _
  have hf : ((t.archivedLedgerSummary.adjustments.file LedgerEntry.archiveKey
      (t.archived before)).values.filterMap (·.eventOf parse cardId)).Perm
        (t.archivedEvents parse cardId before) ↔ _ := AList.filterMap_file_perm tells_iff
  rw [← adjustments_archive before receipt] at hf
  simp only [List.withKey_perm_iff]
  constructor
  case mp =>
    intro h
    constructor
    case files => exact hf.mp ((List.perm_of_withKey fun n => (h n).left).trans hp)
    case alone =>
      intro a ha b hb hab
      have mem {a n} (ha : a ∈ t.archivedEvents parse cardId before) (hn : a.tsSecs = n) :
          a ∈ ((listed ++ t.archived before).filterMap (·.eventOf parse cardId)).withKey
            CardEvent.tsSecs n :=
        List.mem_filter.mpr ⟨hp.mem_iff.mpr ha, decide_eq_true hn⟩
      exact (h b.tsSecs).right a (mem ha hab) b (mem hb rfl)
  case mpr =>
    intro h n
    constructor
    case left => exact List.withKey_perm ((hf.mpr h.files).trans hp.symm) n
    case right =>
      intro a ha b hb
      have ⟨ha, han⟩ := List.mem_filter.mp ha
      have ⟨hb, hbn⟩ := List.mem_filter.mp hb
      have hab : a.tsSecs = b.tsSecs := (of_decide_eq_true han).trans (of_decide_eq_true hbn).symm
      exact h.alone a (hp.mem_iff.mp ha) b (hp.mem_iff.mp hb) hab

-- Tables a card's history is the same in.
structure Alike (t t' : Tables F) : Prop where
  ledger      : t'.ledger = t.ledger
  adjustments : t'.archivedLedgerSummary.adjustments = t.archivedLedgerSummary.adjustments
  milestones  : ∀ cardId, (t'.cards.lookup cardId).map Card.milestones =
    (t.cards.lookup cardId).map Card.milestones

theorem Alike.trans {t'' : Tables F} (h : Alike t t') (h' : Alike t' t'') : Alike t t'' where
  ledger       := h'.ledger.trans h.ledger
  adjustments  := h'.adjustments.trans h.adjustments
  milestones k := (h'.milestones k).trans (h.milestones k)

theorem Alike.cardHistory (h : Alike t t') :
    t'.cardHistory parse cardId listed = t.cardHistory parse cardId listed := by
  have hm := h.milestones cardId
  unfold Tables.cardHistory
  cases hc' : t'.cards.lookup cardId <;> cases hc : t.cards.lookup cardId <;>
    simp_all [cardEvents, h.ledger]

theorem recovered_alike (t : Tables F) : Alike t t.recovered := by
  have ⟨hl, ha⟩ := Engine.recovered_recorded t
  refine ⟨hl, ha, fun cardId => ?_⟩
  simp only [recovered, restoreTemplateInvocations]
  split <;> simp only [AList.lookup_mapValues, Option.map_map] <;> rfl

end Tables

namespace Engine

variable {F : Type} [F64 F] [Host F]

def cardHistory (e : Engine F) (listed : List (LedgerEntry F)) (cardId : String) :
    Option (List CardEvent) :=
  e.tables.cardHistory (parseJson F) cardId listed

-- An engine that goes on, or starts again.
inductive Resumed (e : Engine F) : Engine F → Prop
  | running   : Resumed e e
  | restarted : Resumed e (e.restart io)
  | reloaded  : e.persistent → Resumed e e.reload

-- Whatever order the archived adjustments are in, a card's history is as it was before an archive.
def KeepsHistory (e : Engine F) (io : Io) (before : Nat) (cardId : String)
    (listed : List (LedgerEntry F)) : Prop :=
  ∀ e', (e.archiveLedger io before).2.Resumed e' →
    ∀ listed', listed'.Perm e'.tables.archivedLedgerSummary.adjustments.values →
      e'.cardHistory listed' cardId = e.cardHistory listed cardId

variable {e e' : Engine F} {io : Io} {before : Nat} {cardId : String}

omit [F64 F] in
-- What an archive that succeeds leaves in memory is what it saves.
theorem archiveLedger_eq_ok (h : (e.archiveLedger io before).1 = .ok receipt) :
    (e.archiveLedger io before).2.tables = e.tables.withArchive before receipt ∧
    (e.persistent → ∃ s, (e.archiveLedger io before).2.disk = some s ∧
      s.tables = e.tables.withArchive before receipt) := by
  simp only [archiveLedger] at h ⊢
  split at h
  case h_2 => cases h
  case h_3 => cases h
  case h_1 txn ht _ =>
    simp only [Tables.archiveLedger, bind_eq_ok', exists_unit, pure_eq_ok] at ht
    obtain ⟨_, ht⟩ := ht
    subst ht
    let files := e.archiveFiles.insert (e.archiveReceipt io before).archiveFile
      (e.tables.archived before)
    have hp : Publishes { e with archiveFiles := files }.tables _ :=
      archiveLedger_publishes e.tables before (e.archiveReceipt io before)
    have ht : Engine.transact { e with archiveFiles := files } io _ = (.ok receipt, _) := Prod.ext h rfl
    cases transact_eq_ok hp ht
    case inl ha => cases ha.left
    case inr hw =>
      obtain ⟨_, _, hw, hc⟩ := hw
      cases hw
      exact ⟨hc.tables_eq rfl, fun hd => ⟨_, hc.saved hd, hc.tables_eq rfl⟩⟩

omit [F64 F] in
theorem Resumed.alike (h : e.Resumed e')
    (hd : e.persistent → ∃ s, e.disk = some s ∧ s.tables = e.tables) :
    Tables.Alike e.tables e'.tables := by
  cases h
  case running => exact ⟨rfl, rfl, fun _ => rfl⟩
  case restarted =>
    have h := Tables.recovered_alike e.tables
    exact ⟨h.ledger, h.adjustments, h.milestones⟩
  case reloaded hp =>
    have ⟨s, hs, ht⟩ := hd hp
    have h := Tables.recovered_alike s.stored.tables
    rw [reload, hs, ← ht]
    exact ⟨h.ledger, h.adjustments, h.milestones⟩

theorem take_eq_take_iff {l l' : List α} {n : Nat} (h : l.length < n) :
    l'.take n = l.take n ↔ l' = l := by
  constructor
  case mp =>
    intro he
    have hl := congrArg List.length he
    rw [List.length_take, List.length_take] at hl
    rwa [List.take_of_length_le (by omega), List.take_of_length_le (by omega)] at he
  case mpr => exact fun he => he ▸ rfl

omit [F64 F] in
-- An archive, and a restart after it, keeps the history of a card where nothing of the card is left out
-- or replaced, and what is archived of it is apart in time.
theorem archive_keeps_history (ho : (e.archiveLedger io before).1 = .ok receipt)
    (hc : e.tables.cards.lookup cardId = some c)
    (hl : listed.Perm e.tables.archivedLedgerSummary.adjustments.values)
    (hn : (e.tables.cardEvents (parseJson F) cardId listed c).length < historyLimit) :
    e.KeepsHistory io before cardId listed ↔
      e.tables.Lasting (parseJson F) cardId before := by
  have ⟨ht, hs⟩ := archiveLedger_eq_ok ho
  have same (listed') : (e.archiveLedger io before).2.cardHistory listed' cardId =
      e.cardHistory listed cardId ↔ ∀ n,
        (listed'.filterMap (·.eventOf (parseJson F) cardId)).withKey CardEvent.tsSecs n =
        ((listed ++ e.tables.archived before).filterMap
          (·.eventOf (parseJson F) cardId)).withKey CardEvent.tsSecs n := by
    have hk : (e.tables.withArchive before receipt).ledger = e.tables.kept before := rfl
    rw [← Tables.archive_events_iff (c := c) hk]
    simp only [cardHistory, Tables.cardHistory, ht, Tables.withArchive, hc, Option.map_some,
      Option.some.injEq]
    rw [take_eq_take_iff, List.reverse_inj]
    rwa [List.length_reverse, List.sortByKey_perm.length_eq]
  rw [← Tables.lasting_iff before receipt hl]
  constructor
  case mp =>
    intro h n listed' hp
    exact (same listed').mp (h _ .running listed' (ht ▸ hp)) n
  case mpr =>
    intro h e' hr listed' hp
    have ha : Tables.Alike _ e'.tables := hr.alike fun hd => by
      have hk : (e.archiveLedger io before).2.persistent = e.persistent :=
        congrArg Process.persistent archiveLedger_process
      rw [ht]
      exact hs (hk ▸ hd)
    rw [cardHistory, ha.cardHistory]
    apply (same listed').mpr
    rw [ha.adjustments, ht] at hp
    exact fun n => h n listed' hp

-- A card is frozen, and let go a second later.
theorem archive_keeps_history_frozen :
    let ls : List (Label ℚ) := [
      ⟨.freezeCard "card-1" "operator" "check" 50, {}⟩,
      ⟨.unfreezeCard "card-1" "operator" "done" 51, {}⟩]
    (sample.execAll ls).KeepsHistory {} 60 "card-1" [] := by
  intro ls
  have ho : ((sample.execAll ls).archiveLedger {} 60).1.isOk := by decide +kernel
  have hc : ((sample.execAll ls).tables.cards.lookup "card-1").isSome := by decide +kernel
  have ⟨receipt, ho⟩ := exists_of_isOk ho
  have ⟨c, hc⟩ := Option.isSome_iff_exists.mp hc
  have hl : (([] : List (LedgerEntry ℚ))).Perm
      (sample.execAll ls).tables.archivedLedgerSummary.adjustments.values := .refl _
  have hn : ((sample.execAll ls).tables.cards.lookup "card-1").all fun c =>
      ((sample.execAll ls).tables.cardEvents (parseJson ℚ) "card-1" [] c).length < historyLimit := by
    decide +kernel
  rw [hc] at hn
  apply (archive_keeps_history ho hc hl (of_decide_eq_true hn)).mpr
  constructor
  case files => exact ⟨by decide +kernel, by decide +kernel, by decide +kernel⟩
  case alone => decide +kernel

-- A top-up is only added up when it's archived.
theorem archived_topup_lost : ¬∀ (e₀ e : Engine ℚ) ls, Run Step e₀ ls e → e₀.Started →
    ∀ io before cardId receipt c listed, (e.archiveLedger io before).1 = .ok receipt →
      e.tables.cards.lookup cardId = some c →
      listed.Perm e.tables.archivedLedgerSummary.adjustments.values →
      (e.tables.cardEvents (parseJson ℚ) cardId listed c).length < historyLimit →
      e.KeepsHistory io before cardId listed := by
  intro h
  let ls : List (Label ℚ) := [⟨.redeemTopup "card-1" "code" 20 "portal", {}⟩]
  have ho : ((renewable.execAll ls).archiveLedger {} 60).1.isOk := by decide +kernel
  have hc : ((renewable.execAll ls).tables.cards.lookup "card-1").isSome := by decide +kernel
  have ⟨receipt, ho⟩ := exists_of_isOk ho
  have ⟨c, hc⟩ := Option.isSome_iff_exists.mp hc
  have hn : ((renewable.execAll ls).tables.cards.lookup "card-1").all fun c =>
      ((renewable.execAll ls).tables.cardEvents (parseJson ℚ) "card-1" [] c).length < historyLimit := by
    decide +kernel
  rw [hc] at hn
  have hk := h _ _ ls (run_execAll renewable ls) renewable_started {} 60 "card-1" receipt c [] ho hc
    (.refl _) (of_decide_eq_true hn) _ .running [] (.refl _)
  exact absurd hk (by decide +kernel)

-- What is archived of one second is listed in whichever order the archived adjustments are in.
theorem archived_second_reordered :
    let ls : List (Label ℚ) := [
      ⟨.freezeCard "card-1" "operator" "check" 50, {}⟩,
      ⟨.unfreezeCard "card-1" "operator" "done" 50, {}⟩]
    ¬(sample.execAll ls).KeepsHistory {} 60 "card-1" [] := by
  intro ls h
  let e := ((sample.execAll ls).archiveLedger {} 60).2
  let listed := e.tables.archivedLedgerSummary.adjustments.values
  have hl : e.cardHistory listed "card-1" = e.cardHistory listed.reverse "card-1" :=
    (h e .running listed (.refl _)).trans (h e .running listed.reverse listed.reverse_perm).symm
  exact absurd hl (by decide +kernel)

end Engine
end Billing
