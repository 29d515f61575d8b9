import Superkiro.Billing.Agreement
import Superkiro.Billing.Prices

-- An invocation that was billed isn't billed again.
namespace Billing

open F64 Except Host AList

-- How often the live ledger bills an invocation.
def Tables.usages (t : Tables F) (id : String) : Nat := t.ledger.countP (·.isUsageOf id)

-- The invocation a change bills.
def Change.billed : Change F → Option String
  | .debit id _ _ _ => some id
  | .charge _ _ r   => some r.invocationId
  | _               => none

-- The invocation a change holds credits for.
def Change.holds : Change F → Option String
  | .hold _ r => some r.invocationId
  | _         => none

-- Nothing is left to be billed for an invocation.
structure Tables.Over (id : String) (t : Tables F) : Prop where
  keyed      : t.Keyed
  notHeld    : ∀ {r}, t.reservations.lookup id = some r → r.state ≠ .held
  notPending : t.pendingSettlements.lookup id = none

section

variable [F64 F] [Host F] {t t' : Tables F} {c : Change F} {id : String}

-- Only a bill of an invocation adds to its usage.
theorem Change.Step.usages_le (h : Step t c t') (hb : c.billed ≠ some id) :
    t'.usages id ≤ t.usages id := by
  have added {entry : LedgerEntry F} (ht : t'.ledger = t.ledger ++ [entry])
      (hn : entry.isUsageOf id = false) : t'.usages id ≤ t.usages id := by
    rw [Tables.usages, ht, List.countP_append, List.countP_singleton, hn]
    exact le_of_eq (by simp [Tables.usages])
  cases h
  case debit id' r card entry h =>
    refine added rfl ?_
    have hne : id' ≠ id := fun he => hb (congrArg some he)
    simp [LedgerEntry.isUsageOf, h.invocation, hne]
  case charge card entry r h _ =>
    refine added rfl ?_
    have hne : r.invocationId ≠ id := fun he => hb (congrArg some he)
    obtain ⟨_, _, he⟩ := h.billed
    simp [LedgerEntry.isUsageOf, he, Tables.templateEntry, hne]
  case post h => exact added rfl (by simp [LedgerEntry.isUsageOf, h.notUsage])
  case archive => exact List.filter_sublist.countP_le
  case publish h => rw [h.configured]; exact le_refl _
  all_goals exact le_refl _

omit [F64 F] [Host F] in
theorem notHeld_insert {rs : Table String (CreditReservation F)} {id' : String}
    {r r' : CreditReservation F} (hr : r.state ≠ .held)
    (h : ∀ {r}, id ≠ id' → rs.lookup id = some r → r.state ≠ .held)
    (hl : (rs.insert id' r).lookup id = some r') : r'.state ≠ .held := by
  rcases lookup_insert_iff.mp hl with ⟨_, hv⟩ | ⟨hne, hl⟩
  · exact hv ▸ hr
  · exact h hne hl

theorem Tables.Over.step (h : t.Over id) (hs : Change.Step t c t') (hc : c.holds ≠ some id) :
    t'.Over id := by
  have hk := hs.keyed h.keyed
  cases hs
  case hold card r _ =>
    have hne : id ≠ r.invocationId := fun he => hc (congrArg some he.symm)
    refine ⟨hk, fun hr => h.notHeld ?_, h.notPending⟩
    rwa [← lookup_insert_ne hne]
  case extend id' card reserved r hs =>
    refine ⟨hk, fun hr => ?_, h.notPending⟩
    rcases lookup_insert_iff.mp hr with ⟨rfl, _⟩ | ⟨_, hr⟩
    · obtain ⟨old, ho, hh, _⟩ := hs.grows
      exact absurd hh (h.notHeld ho)
    · exact h.notHeld hr
  case pend id' p _ hp =>
    have hne : id ≠ id' := by
      rintro rfl
      obtain ⟨r, _, hb⟩ := priceSettlement_cases hp
      exact h.notHeld hb.reservation hb.held
    exact ⟨hk, h.notHeld, (lookup_insert_ne hne).trans h.notPending⟩
  case debit id' r card entry hs =>
    refine ⟨hk, notHeld_insert (r := r.finish .settled) (by rintro ⟨⟩) fun _ => h.notHeld, ?_⟩
    rw [Tables.debit, lookup_eq_none, mem_erase]
    exact fun hm => lookup_eq_none.mp h.notPending hm.right
  case release id' r _ hr _ =>
    exact ⟨hk, notHeld_insert (r := r.finish .released) (by rintro ⟨⟩) fun _ => h.notHeld, h.notPending⟩
  case clean =>
    refine ⟨hk, fun hr hh => ?_, h.notPending⟩
    obtain ⟨old, ho, rfl, _⟩ := (Tables.lookup_clean h.keyed).mp hr
    rw [Tables.reclaimed_of_held hh] at hh
    exact h.notHeld ho hh
  case publish hs =>
    refine ⟨hk, ?_, ?_⟩
    all_goals rw [hs.configured]
    · exact h.notHeld
    · exact h.notPending
  case recover =>
    refine ⟨hk, fun hr => ?_, h.notPending⟩
    rcases Tables.lookup_recovered_cases hr with ⟨hr, _⟩ | ⟨_, _, _, _, rfl⟩
    · exact h.notHeld hr
    · intro h
      cases h
  all_goals exact ⟨hk, h.notHeld, h.notPending⟩

-- What was billed is over.
theorem Change.Step.over (hk : t.Keyed) (hs : Step t c t') (hb : c.billed = some id) : t'.Over id := by
  have hk' := hs.keyed hk
  cases hs
  case debit id' r card entry hs =>
    cases hb
    refine ⟨hk', notHeld_insert (r := r.finish .settled) (by rintro ⟨⟩) fun hne => absurd rfl hne, ?_⟩
    simp [Tables.debit]
  case charge card entry r hs _ =>
    cases hb
    refine ⟨hk', fun hr hh => ?_, lookup_eq_none.mpr hs.notPending⟩
    rw [hs.unreserved hr] at hh
    cases hh
  all_goals cases hb

theorem Tables.Over.usages_le (h : t.Over id) (hs : Change.Step t c t')
    (hc : ∀ card entry r, c = .charge card entry r → r.invocationId ≠ id) :
    t'.usages id ≤ t.usages id := by
  refine hs.usages_le fun hb => ?_
  cases hs
  case debit hs =>
    cases hb
    exact h.notHeld hs.reservation hs.held
  case charge => exact hc _ _ _ rfl (Option.some.inj hb)
  all_goals cases hb

-- An invocation a template was charged for: it can't be reserved or charged again, ever.
structure Tables.Sealed (id : String) (t : Tables F) : Prop extends t.Over id where
  charged : id ∈ t.archivedLedgerSummary.usageInvocationIds
  kept    : t.archivedLedgerSummary.templateInvocationsComplete ∨ t.archivedLedgerReceipts ≠ [] ∨
    ∃ entry ∈ t.ledger, entry.isTemplateUsage ∧ entry.invocationId = some id

-- A settled invocation that is still on record: it can't be reserved or charged.
structure Tables.Marked (id : String) (start : Nat) (t : Tables F) : Prop extends t.Over id where
  marked : ∃ r, t.reservations.lookup id = some r ∧ r.state = .settled ∧ r.createdAtSecs = start

omit [F64 F] [Host F] in
theorem templateEntry_isTemplateUsage {r : ResponseTemplateReceipt} {card : Card} :
    (t.templateEntry r revision ruleId modelId price card now).isTemplateUsage := by
  simp [LedgerEntry.isTemplateUsage, Tables.templateEntry, Text.startsWith_append]

theorem Change.Step.sealed {card : Card} {entry : LedgerEntry F} {r : ResponseTemplateReceipt}
    (hk : t.Keyed) (hs : Step t (.charge card entry r) t') : t'.Sealed r.invocationId := by
  have ho : t'.Over r.invocationId := hs.over hk rfl
  cases hs
  case charge hs _ =>
    refine ⟨ho, Finset.mem_insert_self .., .inr (.inr ⟨entry, List.mem_append_right _ (.head _), ?_⟩)⟩
    obtain ⟨_, _, he⟩ := hs.billed
    rw [he]
    exact ⟨templateEntry_isTemplateUsage, rfl⟩

omit [F64 F] [Host F] in
theorem charged_includeEntry {s : ArchivedLedgerSummary F} (h : id ∈ s.usageInvocationIds)
    (entries : List (LedgerEntry F)) :
    id ∈ (entries.foldl ArchivedLedgerSummary.includeEntry s).usageInvocationIds := by
  induction entries generalizing s
  case nil => exact h
  case cons entry entries hi =>
    refine hi ?_
    simp only [ArchivedLedgerSummary.includeEntry]
    split
    case h_1 => exact Finset.mem_insert_of_mem h
    case h_2 => exact h

omit [F64 F] [Host F] in
-- A restart doesn't forget what templates were charged for.
theorem Tables.Sealed.restored (h : t.Sealed id) :
    id ∈ t.restoreTemplateInvocations.archivedLedgerSummary.usageInvocationIds ∧
      (t.restoreTemplateInvocations.archivedLedgerSummary.templateInvocationsComplete ∨
        t.archivedLedgerReceipts ≠ [] ∨
        ∃ entry ∈ t.ledger, entry.isTemplateUsage ∧ entry.invocationId = some id) := by
  simp only [restoreTemplateInvocations, Finset.mem_union, List.mem_toFinset, List.mem_filterMap,
    List.mem_filter]
  split
  case isTrue hn =>
    simp only [Bool.and_eq_true, Bool.not_eq_true', List.isEmpty_iff] at hn
    rcases h.kept with hk | hk | ⟨entry, he, ht, hi⟩
    · rw [hn.left] at hk
      cases hk
    · exact absurd hn.right hk
    · exact ⟨.inr ⟨entry, ⟨he, ht⟩, hi⟩, .inl rfl⟩
  case isFalse => exact ⟨.inl h.charged, h.kept⟩

theorem Tables.Sealed.step (h : t.Sealed id) (hs : Change.Step t c t') :
    t'.Sealed id ∧ t'.usages id ≤ t.usages id := by
  have hholds : c.holds ≠ some id := by
    intro he
    cases hs
    case hold hs =>
      cases he
      exact hs.notTemplate h.charged
    all_goals cases he
  have hcharges card entry r (hc : c = .charge card entry r) : r.invocationId ≠ id := by
    rintro rfl
    subst hc
    cases hs
    case charge hs _ => exact hs.notTemplate h.charged
  have ho := h.toOver.step hs hholds
  refine ⟨?_, h.usages_le hs hcharges⟩
  cases hs
  case charge hs _ => exact ⟨ho, Finset.mem_insert_of_mem h.charged, .inl rfl⟩
  case debit | post =>
    refine ⟨ho, h.charged, h.kept.imp_right (.imp_right ?_)⟩
    rintro ⟨entry, he, hu⟩
    exact ⟨entry, List.mem_append_left _ he, hu⟩
  case archive => exact ⟨ho, charged_includeEntry h.charged _, .inr (.inl (by simp [Tables.withArchive]))⟩
  case publish hs =>
    refine ⟨ho, ?_, ?_⟩
    all_goals rw [hs.configured]
    · exact h.charged
    · exact h.kept
  case recover => exact ⟨ho, h.restored.left, h.restored.right⟩
  all_goals exact ⟨ho, h.charged, h.kept⟩

theorem Tables.Marked.step {start : Nat} (h : t.Marked id start) (hs : Change.Step t c t')
    (hc : ∀ active now, c = .clean active now → now ≤ start + terminalReservationRetentionSecs) :
    t'.Marked id start ∧ t'.usages id ≤ t.usages id := by
  obtain ⟨r, hr, hsettled, hstart⟩ := h.marked
  have hholds : c.holds ≠ some id := by
    intro he
    cases hs
    case hold hs =>
      cases he
      rw [(hs.free hr).left] at hsettled
      cases hsettled
    all_goals cases he
  have hcharges card entry r (hc : c = .charge card entry r) : r.invocationId ≠ id := by
    rintro rfl
    subst hc
    cases hs
    case charge hs _ =>
      rw [hs.unreserved hr] at hsettled
      cases hsettled
  have ho := h.toOver.step hs hholds
  have other {id' : String} {rs : Table String (CreditReservation F)} {r' r'' : CreditReservation F}
      (hl : t.reservations.lookup id' = some r') (hh : r'.state = .held) (hrs : rs = t.reservations.insert id' r'') :
      rs.lookup id = some r := by
    have hne : id ≠ id' := by
      rintro rfl
      exact h.notHeld hl hh
    rw [hrs, lookup_insert_ne hne, hr]
  refine ⟨⟨ho, r, ?_, hsettled, hstart⟩, h.usages_le hs hcharges⟩
  cases hs
  case hold card r' hs =>
    have hne : id ≠ r'.invocationId := fun he => hholds (congrArg some he.symm)
    exact (lookup_insert_ne hne).trans hr
  case extend hs =>
    obtain ⟨old, hl, hh, _⟩ := hs.grows
    exact other hl hh rfl
  case debit hs => exact other hs.reservation hs.held rfl
  case release hl hh => exact other hl hh rfl
  case clean active now =>
    have hle := hc _ _ rfl
    have hterminal : t.reclaimed active now r = r :=
      Tables.reclaimed_of_terminal fun hh => h.notHeld hr hh
    refine (Tables.lookup_clean h.keyed).mpr ⟨r, hr, hterminal.symm, ?_⟩
    rw [Tables.isPrunable, decide_eq_false (p := r.createdAtSecs < _) (by omega)]
    simp
  case publish hs => rw [hs.configured]; exact hr
  case recover => exact Tables.lookup_recovered_of hr fun hh => absurd hh (h.notHeld hr)
  all_goals exact hr

-- The operations that bill.
def Op.bills : Op F → Bool
  | .settle .. | .retryPendingSettlement _ | .chargeResponseTemplate .. => true
  | _                                                                   => false

omit [F64 F] [Host F] in
-- What an operation that bills makes is a bill, or holds no credits.
theorem Op.Makes.bills {op : Op F} (h : op.Makes t c) (hb : c.billed ≠ none) : op.bills := by
  cases h
  case settle | retry | charge => rfl
  all_goals exact absurd rfl hb

omit [F64 F] [Host F] in
theorem Op.Makes.holds {op : Op F} (h : op.Makes t c) (hb : op.bills) : c.holds = none := by
  cases h
  case reserve => cases hb
  all_goals rfl

namespace Engine

variable {e e₀ e₁ e₂ : Engine F} {io : Io} {op : Op F} {ls₀ ls : List (Label F)}

-- What an operation that billed an invocation leaves: nothing to bill it for, and that on disk too.
structure Bills (e : Engine F) (io : Io) (op : Op F) (id : String) : Prop where
  bills  : op.bills
  closed : (e.exec io op).tables.Over id
  sealed : ∀ revision ruleId modelId r now,
    op = .chargeResponseTemplate revision ruleId modelId r now → (e.exec io op).tables.Sealed id
  saved  : e.persistent → ∀ {s}, (e.exec io op).disk = some s → s.tables = (e.exec io op).tables

theorem exec_bills (hk : e.tables.Keyed) (hop : op ≠ .reload)
    (hb : e.tables.usages id < (e.exec io op).tables.usages id) : e.Bills io op id := by
  obtain ⟨⟨cs, hsteps, hmakes⟩, _⟩ := exec_effect io op (source_eq hop ▸ hk)
  rw [source_eq hop] at hsteps hmakes
  have hbilled : ∃ c ∈ cs, c.billed = some id := by
    by_contra hn
    push Not at hn
    have hle := hsteps.preserves_mem (I := fun t => t.usages id ≤ e.tables.usages id)
      (fun hm hle hs => (hs.usages_le (hn _ hm)).trans hle) le_rfl
    omega
  have hbills : op.bills := by
    obtain ⟨c, hm, hc⟩ := hbilled
    exact (hmakes c hm).bills (by simp [hc])
  have hholds c (hm : c ∈ cs) : c.holds ≠ some id := by simp [(hmakes c hm).holds hbills]
  refine ⟨hbills, ?_, ?_, ?_⟩
  · have hover := hsteps.preserves_mem
      (I := fun t => t.Keyed ∧ (t.usages id ≤ e.tables.usages id ∨ t.Over id))
      (fun {t c t'} hm hi hs => ⟨hs.keyed hi.left, ?_⟩) ⟨hk, .inl le_rfl⟩
    · exact hover.right.resolve_left (by omega)
    · by_cases hc : c.billed = some id
      case pos => exact .inr (hs.over hi.left hc)
      case neg => exact hi.right.imp (hs.usages_le hc).trans (·.step hs (hholds c hm))
  · rintro revision ruleId modelId r now rfl
    have hsealed := hsteps.preserves_mem
      (I := fun t => t.Keyed ∧ (t.usages id ≤ e.tables.usages id ∨ t.Sealed id))
      (fun {t c t'} hm hi hs => ⟨hs.keyed hi.left, ?_⟩) ⟨hk, .inl le_rfl⟩
    · exact hsealed.right.resolve_left (by omega)
    · by_cases hc : c.billed = some id
      case pos =>
        have hmake := hmakes c hm
        cases hmake
        case charge =>
          cases hc
          exact .inr (hs.sealed hi.left)
        all_goals cases hc
      case neg => exact hi.right.imp (hs.usages_le hc).trans fun h => (h.step hs).left
  · intro hp s hd
    have hcommit : op.isCommitting := by
      cases op <;> first | rfl | cases hbills
    rcases @exec_agrees F _ _ e io hp hk _ hcommit with h | ⟨_, _, _, _, _, _, _, _, h⟩
    · generalize e.exec io op = e' at h hb hd ⊢
      generalize e.outcome io op = answer at h
      cases h
      case unchanged h => rw [h.tables] at hb; omega
      case saved h =>
        cases h.symm.trans hd
        rfl
    · obtain ⟨p, ht⟩ := h.tables
      rw [ht] at hb
      exact absurd hb (lt_irrefl _)

-- What holds after a bill, in memory and on disk, and keeps the invocation from being billed.
theorem Bills.kept {P : Tables F → Prop} (h : e.Bills io op id) (hp : P (e.exec io op).tables)
    (hk : ∀ {t}, P t → t.Keyed)
    (hs : ∀ l ∈ ls, ∀ {t₀ t c t'}, l.op.Makes t₀ c → P t → Change.Step t c t' →
      P t' ∧ t'.usages id ≤ t.usages id)
    (run : Run Step (e.exec io op) ls e₂) (hr : e.persistent ∨ ∀ l ∈ ls, l.op ≠ .reload) :
    e₂.tables.usages id ≤ (e.exec io op).tables.usages id := by
  have hl : (e.exec io op).Lasting
      fun t => P t ∧ t.usages id ≤ (e.exec io op).tables.usages id := by
    refine ⟨⟨hp, le_rfl⟩, fun hper {s} hd => ?_⟩
    rw [exec_persistent] at hper
    rw [h.saved hper hd]
    exact ⟨hp, le_rfl⟩
  refine (hl.run (fun h => hk h.left) (fun l hm => ?_) run ?_).live.right
  · intro t₀ t c t' hmakes ht hstep
    obtain ⟨hp', hle⟩ := hs l hm hmakes ht.left hstep
    exact ⟨hp', hle.trans ht.right⟩
  · rw [exec_persistent]
    exact hr

end Engine

variable {e₀ e e₂ : Engine F} {ls₀ ls : List (Engine.Label F)} {io : Io} {op : Op F}

end

section

open Engine

end

end Billing
