import Superkiro.Billing.Holds

namespace Billing

open F64 Except Host AList

namespace ArchivedCardSummary

-- What was archived of a card's usage from some time on.
def spentSince (c : ArchivedCardSummary) (since : Nat) : Int :=
  c.usageBySecond.total fun s x => if since ≤ s then x.val else 0

-- Whether no second's usage is negative.
def Bucketed (c : ArchivedCardSummary) : Prop :=
  ∀ ⦃s x⦄, c.usageBySecond.lookup s = some x → 0 ≤ x.val

end ArchivedCardSummary

-- What an entry adds to the usage from some time on.
def LedgerEntry.spentSince (e : LedgerEntry F) (since : Nat) : Int :=
  if e.kind = .usage ∧ since ≤ e.tsSecs then e.creditsCharged.val else 0

namespace ArchivedCardSummary

variable {c : ArchivedCardSummary} {e : LedgerEntry F} {since : Nat}

theorem Bucketed.spent_nonneg (h : c.Bucketed) : 0 ≤ c.spentSince since := by
  refine total_nonneg fun s x hx => ?_
  have := h hx
  split <;> omega

theorem Bucketed.includeEntry (h : c.Bucketed) (he : e.kind = .usage → 0 ≤ e.creditsCharged.val) :
    (c.includeEntry e).Bucketed := by
  simp only [ArchivedCardSummary.includeEntry]
  split
  case h_1 hk =>
    have := he hk
    intro s x hx
    rcases lookup_insert_iff.mp hx with ⟨_, hx⟩ | ⟨_, hx⟩
    · rw [←hx, I64.val_satAdd]
      cases ho : c.usageBySecond.lookup e.tsSecs
      case none => simp; omega
      case some y =>
        have := h ho
        simp
        omega
    · exact h hx
  case h_2 => exact h
  case h_3 => split <;> exact h

-- A second's usage saturates, but then so does everything that it counts towards.
theorem Bucketed.min_spentSince_includeEntry (h : c.Bucketed)
    (he : e.kind = .usage → 0 ≤ e.creditsCharged.val) {rest : Int} (hr : 0 ≤ rest) :
    min 9223372036854775807 ((c.includeEntry e).spentSince since + rest) =
      min 9223372036854775807 (c.spentSince since + (e.spentSince since + rest)) := by
  simp only [ArchivedCardSummary.includeEntry, LedgerEntry.spentSince]
  split
  case h_1 hk =>
    have hcharge := he hk
    simp only [spentSince, total_insert', hk, true_and]
    have hle : ((c.usageBySecond.lookup e.tsSecs).map fun x : I64 =>
        if since ≤ e.tsSecs then x.val else 0).getD 0 ≤ c.spentSince since := by
      cases ho : c.usageBySecond.lookup e.tsSecs
      case none => exact h.spent_nonneg
      case some y =>
        have := le_total (f := fun s (x : I64) => if since ≤ s then x.val else 0)
          (fun s x hx => by have := h hx; split <;> omega) ho
        simpa [spentSince] using this
    simp only [spentSince] at hle
    by_cases hs : since ≤ e.tsSecs
    case pos =>
      simp only [hs, if_true] at hle ⊢
      cases ho : c.usageBySecond.lookup e.tsSecs
      case none =>
        simp [ho] at hle ⊢
        omega
      case some y =>
        have := h ho
        simp [ho] at hle ⊢
        omega
    case neg =>
      simp only [hs, if_false] at hle ⊢
      cases c.usageBySecond.lookup e.tsSecs <;> simp
  case h_2 hk => simp [hk, spentSince]
  case h_3 hk => split <;> simp [hk, spentSince]

end ArchivedCardSummary

namespace Tables

variable {t t' : Tables F} {k : String} {since before : Nat}

-- What a card used from some time on, by the live ledger and by what was archived of it.
def spentSince (t : Tables F) (k : String) (since : Nat) : Int :=
  (t.archivedLedgerSummary.card k).spentSince since +
    ((t.ledger.filter (·.cardId = k)).map (·.spentSince since)).sum

-- Whether no usage is negative.
structure Bucketed (t : Tables F) : Prop where
  entries  : ∀ e ∈ t.ledger, e.kind = .usage → 0 ≤ e.creditsCharged.val
  archived : ∀ k, (t.archivedLedgerSummary.card k).Bucketed

theorem sum_spentSince (es : List (LedgerEntry F)) :
    ((es.filter (·.cardId = k)).map (·.spentSince since)).sum =
      (((es.filter fun e => e.cardId = k && e.kind = .usage).filter (since ≤ ·.tsSecs)).map
        (·.creditsCharged.val)).sum := by
  induction es
  case nil => rfl
  case cons e es hi =>
    by_cases hc : e.cardId = k
    case pos =>
      by_cases hk : e.kind = .usage <;> by_cases hs : since ≤ e.tsSecs <;>
        simp_all [LedgerEntry.spentSince]
    case neg => simp_all

theorem sum_spentSince_nonneg {es : List (LedgerEntry F)}
    (h : ∀ e ∈ es, e.kind = .usage → 0 ≤ e.creditsCharged.val) :
    0 ≤ (es.map (·.spentSince since)).sum := by
  refine List.sum_nonneg fun x hx => ?_
  have ⟨e, he, hx⟩ := List.mem_map.mp hx
  rw [←hx, LedgerEntry.spentSince]
  split
  case isTrue hk => exact h e he hk.left
  case isFalse => exact le_refl _

theorem Bucketed.spentSince_nonneg (h : t.Bucketed) : 0 ≤ t.spentSince k since := by
  have hs : 0 ≤ ((t.ledger.filter (·.cardId = k)).map (·.spentSince since)).sum :=
    sum_spentSince_nonneg fun e he => h.entries e (List.mem_filter.mp he).left
  exact add_nonneg (h.archived k).spent_nonneg hs

-- The usage that is checked is the usage, unless that is too much to count.
theorem Bucketed.usageSince_val (h : t.Bucketed) :
    (t.usageSince k since).val = min 9223372036854775807 (t.spentSince k since) := by
  let archived := ((t.archivedLedgerSummary.card k).usageBySecond.ascending.filter
    (since ≤ ·.1)).map (·.2)
  have hx : ∀ x ∈ archived, 0 ≤ x.val := by
    intro x hx
    obtain ⟨e, he, hx⟩ := List.mem_map.mp hx
    have he := (ascending_perm _).mem_iff.mp (List.mem_filter.mp he).left
    exact hx ▸ h.archived k (mem_entries_iff.mp he)
  have ha : (archived.map I64.val).sum = (t.archivedLedgerSummary.card k).spentSince since := by
    have hp := ((ascending_perm (t.archivedLedgerSummary.card k).usageBySecond).filter
      (fun e => decide (since ≤ e.1))).map fun e => e.2.val
    have hr := total_retain (f := fun _ (x : I64) => x.val) (fun s _ => decide (since ≤ s))
      (t := (t.archivedLedgerSummary.card k).usageBySecond)
    simp only [decide_eq_true_eq] at hr
    rw [ArchivedCardSummary.spentSince, ←hr]
    simpa [archived, retain, total, Function.comp_def] using hp.sum_eq
  rw [usageSince, I64.val_satSum, ArchivedLedgerSummary.usageSince, I64.val_satSum (by simp) hx, ha]
  · have h0 : 0 ≤ (t.archivedLedgerSummary.card k).spentSince since :=
      (h.archived k).spent_nonneg
    simp only [spentSince, sum_spentSince, entriesOf, List.map_map]
    have hs : 0 ≤ ((t.ledger.filter (·.cardId = k)).map (·.spentSince since)).sum :=
      sum_spentSince_nonneg fun e he => h.entries e (List.mem_filter.mp he).left
    rw [sum_spentSince] at hs
    simp [Function.comp_def] at hs ⊢
    omega
  · exact I64.satSum_nonneg (by simp) hx
  · intro x hx
    obtain ⟨e, he, hx⟩ := List.mem_map.mp hx
    have he := List.mem_filter.mp (List.mem_filter.mp he).left
    simp only [Bool.and_eq_true, decide_eq_true_eq] at he
    exact hx ▸ h.entries e he.left he.right.right

theorem Bucketed.congr (h : t.Bucketed) (hl : t'.ledger = t.ledger)
    (ha : t'.archivedLedgerSummary.cards = t.archivedLedgerSummary.cards) : t'.Bucketed :=
  ⟨hl ▸ h.entries, by simpa [ArchivedLedgerSummary.card, ha] using h.archived⟩

theorem usageSince_congr (hl : t'.ledger = t.ledger)
    (ha : t'.archivedLedgerSummary.cards = t.archivedLedgerSummary.cards) :
    t'.usageSince k since = t.usageSince k since := by
  simp [usageSince, entriesOf, ArchivedLedgerSummary.usageSince, ArchivedLedgerSummary.card, hl, ha]

theorem spentSince_congr (hl : t'.ledger = t.ledger)
    (ha : t'.archivedLedgerSummary.cards = t.archivedLedgerSummary.cards) :
    t'.spentSince k since = t.spentSince k since := by
  simp only [spentSince, ArchivedLedgerSummary.card, hl, ha]

theorem spentSince_concat {e : LedgerEntry F} (hl : t'.ledger = t.ledger ++ [e])
    (ha : t'.archivedLedgerSummary.cards = t.archivedLedgerSummary.cards) :
    t'.spentSince k since =
      t.spentSince k since + if e.cardId = k then e.spentSince since else 0 := by
  simp only [spentSince, ArchivedLedgerSummary.card, hl, ha, List.filter_append, List.map_append,
    List.sum_append]
  by_cases h : e.cardId = k
  case pos => simp [h, add_assoc]
  case neg => simp [h]

theorem Bucketed.concat {e : LedgerEntry F} (h : t.Bucketed) (hl : t'.ledger = t.ledger ++ [e])
    (ha : t'.archivedLedgerSummary.cards = t.archivedLedgerSummary.cards)
    (he : e.kind = .usage → 0 ≤ e.creditsCharged.val) : t'.Bucketed where
  entries e' he' := by
    rw [hl] at he'
    cases List.mem_append.mp he'
    case inl he' => exact h.entries e' he'
    case inr he' => exact List.mem_singleton.mp he' ▸ he
  archived k := by
    have := h.archived k
    rwa [ArchivedLedgerSummary.card, ha]

theorem card_includeEntry (s : ArchivedLedgerSummary F) (e : LedgerEntry F) :
    (s.includeEntry e).card k = if e.cardId = k then (s.card k).includeEntry e else s.card k := by
  by_cases h : e.cardId = k
  case pos =>
    subst h
    simp [ArchivedLedgerSummary.includeEntry, ArchivedLedgerSummary.card]
  case neg =>
    simp [ArchivedLedgerSummary.includeEntry, ArchivedLedgerSummary.card, h,
      lookup_insert_ne (Ne.symm h)]

theorem bucketed_foldl {es : List (LedgerEntry F)} {s : ArchivedLedgerSummary F}
    (hs : (s.card k).Bucketed) (he : ∀ e ∈ es, e.kind = .usage → 0 ≤ e.creditsCharged.val) :
    ((es.foldl ArchivedLedgerSummary.includeEntry s).card k).Bucketed := by
  induction es generalizing s
  case nil => exact hs
  case cons e es hi =>
    refine hi ?_ fun e' he' => he e' (.tail _ he')
    rw [card_includeEntry]
    split
    case isTrue => exact hs.includeEntry (he e (.head _))
    case isFalse => exact hs

-- What entries were used stays used when they are archived.
theorem min_spentSince_foldl {es : List (LedgerEntry F)} {s : ArchivedLedgerSummary F}
    (hs : (s.card k).Bucketed) (he : ∀ e ∈ es, e.kind = .usage → 0 ≤ e.creditsCharged.val)
    {rest : Int} (hr : 0 ≤ rest) :
    min 9223372036854775807
        (((es.foldl ArchivedLedgerSummary.includeEntry s).card k).spentSince since + rest) =
      min 9223372036854775807 ((s.card k).spentSince since +
        (((es.filter (·.cardId = k)).map (·.spentSince since)).sum + rest)) := by
  induction es generalizing s
  case nil => simp
  case cons e es hi =>
    have he' : ∀ e ∈ es, e.kind = .usage → 0 ≤ e.creditsCharged.val :=
      fun e he' => he e (.tail _ he')
    have hsum : 0 ≤ ((es.filter (·.cardId = k)).map (·.spentSince since)).sum :=
      sum_spentSince_nonneg fun e h => he' e (List.mem_filter.mp h).left
    have hcard : ((s.includeEntry e).card k).Bucketed := by
      rw [card_includeEntry]
      split
      case isTrue => exact hs.includeEntry (he e (.head _))
      case isFalse => exact hs
    rw [List.foldl_cons, hi hcard he', card_includeEntry]
    by_cases h : e.cardId = k
    case pos =>
      rw [if_pos h, hs.min_spentSince_includeEntry (he e (.head _)) (by omega),
        List.filter_cons_of_pos (by simpa using h), List.map_cons, List.sum_cons, add_assoc]
    case neg => rw [if_neg h, List.filter_cons_of_neg (by simpa using h)]

theorem Bucketed.archive (h : t.Bucketed) : (t.withArchive before receipt).Bucketed where
  entries e he := h.entries e (List.mem_filter.mp he).left
  archived k   := bucketed_foldl (h.archived k) fun e he => h.entries e (List.mem_filter.mp he).left

-- Archiving doesn't change what was used.
theorem Bucketed.usageSince_archive (h : t.Bucketed) :
    (t.withArchive before receipt).usageSince k since = t.usageSince k since := by
  have hn {es : List (LedgerEntry F)} (hs : es ⊆ t.ledger) :
      0 ≤ ((es.filter (·.cardId = k)).map (·.spentSince since)).sum :=
    sum_spentSince_nonneg fun e he => h.entries e (hs (List.mem_filter.mp he).left)
  have hsum := ((t.archived_perm before).filter (·.cardId = k)).map
    (·.spentSince since) |>.sum_eq
  rw [List.filter_append, List.map_append, List.sum_append] at hsum
  have he : ∀ e ∈ t.archived before, e.kind = .usage → 0 ≤ e.creditsCharged.val :=
    fun e he => h.entries e (List.mem_filter.mp he).left
  have hk : t.kept before ⊆ t.ledger := fun _ h => (List.mem_filter.mp h).left
  rw [I64.eq_iff, h.archive.usageSince_val, h.usageSince_val]
  simp only [spentSince, withArchive]
  rw [min_spentSince_foldl (h.archived k) he (hn hk), hsum]

end Tables

section

variable [F64 F] [Host F] {t t' : Tables F} {c : Change F}

theorem Change.Step.bucketed (h : Change.Step t c t') (ht : t.Bucketed) : t'.Bucketed := by
  cases h
  case debit h => exact ht.concat rfl rfl fun _ => h.charge
  case post entry h =>
    exact ht.concat (e := entry) rfl rfl fun hk => absurd hk h.notUsage
  case charge h _ => exact ht.concat rfl rfl fun _ => h.nonneg
  case archive => exact ht.archive
  case publish h =>
    rw [h.configured]
    exact ht.congr rfl rfl
  case recover =>
    refine ht.congr rfl ?_
    simp only [Tables.recovered, Tables.restoreTemplateInvocations]
    split <;> rfl
  all_goals exact ht.congr rfl rfl

omit [F64 F] [Host F] in
theorem Tables.Fresh.bucketed (h : t.Fresh) : t.Bucketed where
  entries    := by simp [h.ledger]
  archived k := by simp [ArchivedLedgerSummary.card, h.archived, ArchivedCardSummary.Bucketed]

end
end Billing
