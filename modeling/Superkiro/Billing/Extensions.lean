import Superkiro.Billing.Adjustments
import Superkiro.Billing.Exec

-- What extending the validity of some cards does to each of them.
namespace Billing

open Except Host

-- Times and durations are machine integers.
structure Card.InU64 (card : Card) : Prop where
  expiry   : ∀ u, card.validUntil = some u → u ≤ u64Max
  duration : card.activationDurationSecs.getD legacyActivationSecs ≤ u64Max

-- A card that's at least as long valid as another one. A card that never expires stays so.
structure Card.Outlasts (new old : Card) : Prop where
  expiry    : ∀ u', new.validUntil = some u' → ∃ u, old.validUntil = some u ∧ u ≤ u'
  duration  : old.activationDurationSecs.getD legacyActivationSecs ≤
    new.activationDurationSecs.getD legacyActivationSecs
  perpetual : old.activationDurationSecs = some 0 → new.activationDurationSecs = some 0

-- A card that can be extended, and not to an earlier time than its own.
structure Card.Extendable (x : ValidityExtension) (card : Card) : Prop where
  activated : ∀ u, x = .until u → awaitsActivation card = false
  limited   : awaitsActivation card → card.activationDurationSecs ≠ some 0
  expires   : awaitsActivation card = false → card.validUntil.isSome
  later     : ∀ u, x = .until u → ∀ current, card.validUntil = some current → current ≤ u

-- The cards that were extended once each, with their entries.
structure Tables.Extends (t t' : Tables F) (ids : List String) (x : ValidityExtension)
    (now : Nat) (entries : List (LedgerEntry F)) : Prop where
  extended : ∀ id ∈ ids, ∃ old new detail, t.cards.lookup id = some old ∧
    t'.cards.lookup id = some new ∧ extendCard id old x now = .ok (new, detail) ∧
    (old.InU64 → new.Outlasts old)
  others   : ∀ id ∉ ids, t'.cards.lookup id = t.cards.lookup id
  ledger   : t'.ledger = t.ledger ++ entries
  entries  : entries.map (fun e => (e.cardId, e.exposedModel)) = ids.map (·, "extend_validity")
  rest     : t' = { t with cards := t'.cards, ledger := t'.ledger }

variable {t t' : Tables F} {ids seen : List String} {x : ValidityExtension} {now : Nat} {id : String}
  {card old new : Card} {operator reason : String} {s : Tables.Extended F} {detail : Json}

theorem extendCard_total (h : card.Extendable x) : ∃ r, extendCard id card x now = .ok r := by
  cases ha : awaitsActivation card
  case true =>
    match x, h with
    | .days n, _ => exact ⟨_, by simp only [extendCard, ha]; rfl⟩
    | .until u, h => exact absurd ((h.activated u rfl).symm.trans ha) nofun
  case false =>
    have ⟨current, hc⟩ := Option.isSome_iff_exists.mp (h.expires ha)
    exact ⟨_, by simp only [extendCard, ha, hc]; rfl⟩

theorem le_satAddU64 {a b : Nat} (h : a ≤ u64Max) : a ≤ satAddU64 a b :=
  le_min (Nat.le_add_right a b) h

theorem extendCard_outlasts (hu : old.InU64) (he : old.Extendable x)
    (h : extendCard id old x now = .ok (new, detail)) : new.Outlasts old := by
  unfold extendCard at h
  split at h
  case h_1 ha =>
    cases h
    exact ⟨fun u hu => ⟨u, hu, le_refl u⟩, le_satAddU64 hu.duration, fun h => absurd h (he.limited ha)⟩
  case h_2 x _ _ _ current _ hc =>
    cases h
    refine ⟨fun u' hu' => ⟨current, hc, ?_⟩, le_refl _, fun h => h⟩
    cases hu'
    match x, he with
    | .days n, _ =>
      have hm : current ≤ max current now + daySecs n :=
        (le_max_left current now).trans (Nat.le_add_right _ _)
      exact le_min hm (hu.expiry current hc)
    | .until u, he => exact he.later u rfl current hc
  case h_3 => cases h

theorem refusedCards_eq_nil {p : Card → Bool} :
    t.refusedCards ids p = [] ↔ ∀ id ∈ ids, ∀ card, t.cards.lookup id = some card → p card = false := by
  simp only [Tables.refusedCards, List.filter_eq_nil_iff]
  refine forall_congr' fun id => imp_congr_right fun _ => ?_
  cases t.cards.lookup id <;> simp

-- All cards that pass the checks can be extended.
theorem checkExtendable_extendable (h : t.checkExtendable ids x = .ok ()) (hid : id ∈ ids) :
    ∃ card : Card, t.cards.lookup id = some card ∧ card.Extendable x := by
  simp only [Tables.checkExtendable, Tables.refuseCards, bind_eq_ok', ensure_eq_ok, exists_unit,
    List.isEmpty_iff, refusedCards_eq_nil, List.filter_eq_nil_iff] at h
  have ⟨hm, _, _, hp, hx⟩ := h
  have ⟨card, hc⟩ : ∃ card : Card, t.cards.lookup id = some card :=
    AList.mem_iff_lookup.mp (by simpa using hm id hid)
  have hp := hp id hid card hc
  rw [Tables.neverExpires] at hp
  refine ⟨card, hc, ?_, fun ha => ?_, fun ha => ?_, ?_⟩
  · rintro u rfl
    simp only [bind_eq_ok', ensure_eq_ok, exists_unit, refusedCards_eq_nil, List.isEmpty_iff] at hx
    exact hx.left id hid card hc
  · simpa [ha] using hp
  · simpa [ha, Option.isSome_iff_ne_none] using hp
  · rintro u rfl current he
    simp only [bind_eq_ok', ensure_eq_ok, exists_unit, refusedCards_eq_nil, List.isEmpty_iff] at hx
    have hl := hx.right id hid card hc
    rw [he] at hl
    simpa using hl

section Loop

variable {rest : List String}

theorem Tables.Extends.start : t.Extends t [] x now [] where
  extended := nofun
  others   := fun _ _ => rfl
  ledger   := (List.append_nil _).symm
  entries  := rfl
  rest     := rfl

-- One more card is extended.
theorem Tables.Extends.one (operator reason : String)
    (h : t.Extends s.tables seen x now s.entries) (hn : id ∉ seen)
    (hc : t.cards.lookup id = some card) (he : card.Extendable x) :
    ∃ s', Tables.extendOne x operator reason now s id = .ok s' ∧
      t.Extends s'.tables (seen ++ [id]) x now s'.entries := by
  obtain ⟨⟨new, detail⟩, hx⟩ : ∃ r, extendCard id card x now = .ok r := extendCard_total he
  have hs : s.tables.getCard id = .ok card := by
    rw [Tables.getCard, h.others id hn, hc]
    rfl
  refine ⟨_, by simp only [Tables.extendOne, hs, hx, bind, Except.bind]; rfl, ?_, ?_, ?_, ?_, ?_⟩
  · simp only [List.mem_append, List.mem_singleton]
    rintro k (hk | rfl)
    · obtain ⟨old, new, d, ho, hw, hx⟩ := h.extended k hk
      refine ⟨old, new, d, ho, ?_, hx⟩
      have hne : k ≠ id := fun he => hn (he ▸ hk)
      exact (AList.lookup_insert_ne hne).trans hw
    · exact ⟨card, new, detail, hc, AList.lookup_insert _, hx, fun hu => extendCard_outlasts hu he hx⟩
  · intro k hk
    simp only [List.mem_append, List.mem_singleton, not_or] at hk
    exact (AList.lookup_insert_ne hk.right).trans (h.others k hk.left)
  · simp only [Tables.withCard, h.ledger, List.append_assoc]
  · simp only [List.map_append, h.entries]
    rfl
  · rw [Tables.withCard, h.rest]

theorem Tables.Extends.loop (h : t.Extends s.tables seen x now s.entries)
    (hn : (seen ++ rest).Nodup)
    (hc : ∀ id ∈ rest, ∃ card, t.cards.lookup id = some card ∧ card.Extendable x) :
    ∃ s', rest.foldlM (Tables.extendOne x operator reason now) s = .ok s' ∧
      t.Extends s'.tables (seen ++ rest) x now s'.entries := by
  induction rest generalizing s seen
  case nil => exact ⟨s, rfl, by rwa [List.append_nil]⟩
  case cons id rest hi =>
    have ⟨card, hl, he⟩ := hc id List.mem_cons_self
    have hid : id ∉ seen := by
      intro hm
      exact List.disjoint_of_nodup_append hn hm List.mem_cons_self
    have ⟨s', hs, h'⟩ := h.one operator reason hid hl he
    rw [List.append_cons] at hn ⊢
    have ⟨s'', hr, h''⟩ := hi h' hn fun k hk => hc k (List.mem_cons_of_mem _ hk)
    exact ⟨s'', by rw [List.foldlM_cons, hs]; exact hr, h''⟩

-- The loop has a result for all cards that pass the checks.
theorem extendOne_total (operator reason : String) (now : Nat)
    (h : t.checkExtendable (ids.foldl pushNew []) x = .ok ()) :
    ∃ s, (ids.foldl pushNew []).foldlM (Tables.extendOne x operator reason now) ⟨t, [], []⟩ =
      .ok s ∧ t.Extends s.tables (ids.foldl pushNew []) x now s.entries := by
  have hs : t.Extends t [] x now [] := .start
  apply hs.loop (s := ⟨t, [], []⟩)
  · exact nodup_distinct .nil
  · exact fun _ => checkExtendable_extendable h

end Loop

-- What an extension writes.
theorem extendValidity_cases {txn : Txn F (List Card)}
    (h : t.extendValidity cardIds x operator reason now = .ok txn) :
    ∃ t' pub cards entries, txn = .write t' pub cards ∧
      t.Extends t' (cardIds.foldl pushNew []) x now entries := by
  simp only [Tables.extendValidity, bind_eq_ok', exists_unit, pure_eq_ok] at h
  obtain ⟨operator, _, _, hc, s, hs, h⟩ := h
  obtain ⟨s', hs', he⟩ := extendOne_total operator reason now hc
  cases hs.symm.trans hs'
  exact ⟨_, _, _, _, h.symm, he⟩

theorem Tables.Extends.outlasts {entries : List (LedgerEntry F)}
    (h : t.Extends t' ids x now entries)
    (ho : t.cards.lookup id = some old) (hn : t'.cards.lookup id = some new) (hu : old.InU64) :
    new.Outlasts old := by
  by_cases hid : id ∈ ids
  case pos =>
    have ⟨_, _, _, ho', hn', _, hl⟩ := h.extended id hid
    cases ho.symm.trans ho'
    cases hn.symm.trans hn'
    exact hl hu
  case neg =>
    cases ho.symm.trans ((h.others id hid).symm.trans hn)
    exact ⟨fun u h => ⟨u, h, le_refl u⟩, le_refl _, fun h => h⟩

variable [F64 F] [Host F]

-- All cards are extended or none. The ids are those that are given, each once, and the loop goes
-- through them without an error once they pass the checks.
theorem extendValidity_all_or_nothing (e : Engine F) (io : Io) (cardIds : List String)
    (x : ValidityExtension) (operator reason : String) (now : Nat) (hk : e.tables.Keyed) :
    let ids := cardIds.foldl pushNew []
    let (result, e') := e.extendValidity io cardIds x operator reason now
    (ids.Nodup ∧ ∀ id, id ∈ ids ↔ id ∈ cardIds) ∧
    (e.tables.checkExtendable ids x = .ok () →
      ∀ operator, ∃ s,
        ids.foldlM (Tables.extendOne x operator reason now) ⟨e.tables, [], []⟩ = .ok s) ∧
    match result with
    | .error _ => e.Unchanged e'
    | .ok _    => (∃ entries, e.tables.Extends e'.tables ids x now entries) ∧
      ∀ id old new, e.tables.cards.lookup id = some old → e'.tables.cards.lookup id = some new →
        old.InU64 → new.Outlasts old := by
  intro ids
  have hc : Commits e.tables (Op.Makes e.tables (.extendValidity cardIds x operator reason now))
    (e.tables.extendValidity cardIds x operator reason now) := extendValidity_commits hk
  have ht := Engine.transact_cases io hc.publishes
  rw [Engine.extendValidity]
  generalize htxn : e.tables.extendValidity cardIds x operator reason now = txn at ht hc ⊢
  generalize e.transact io txn = res at ht ⊢
  have ⟨result, e'⟩ := res
  refine ⟨⟨nodup_distinct .nil, fun id => by simp [ids, mem_distinct]⟩, fun h operator => ?_, ?_⟩
  · have ⟨s, hs, _⟩ := extendOne_total operator reason now h
    exact ⟨s, hs⟩
  · cases ht
    case refused => exact ⟨rfl, rfl⟩
    case unsaved hu => exact hu
    case answered =>
      have ⟨_, _, _, _, h, _⟩ := extendValidity_cases htxn
      cases h
    case committed hcom =>
      have ⟨t', _, _, entries, h, he⟩ := extendValidity_cases htxn
      cases h
      rw [hcom.tables_eq (by rw [he.rest])]
      exact ⟨⟨entries, he⟩, fun _ _ _ ho hn => he.outlasts ho hn⟩

theorem extendValidity_all_or_nothing_sample :
    let e := Engine.ofCard { Card.sample with validUntil := some 1000 }
    (e.extendValidity {} ["card-1", "card-1"] (.days 1) "operator" "compensation" 500).1.isOk ∧
      (["card-1"].Nodup ∧ ∀ id, id ∈ ["card-1"] ↔ id ∈ ["card-1", "card-1"]) := by
  intro e
  have he : e.tables.Keyed := (ofCard_started rfl rfl rfl (by decide)).fresh.keyed
  have h := extendValidity_all_or_nothing e {} ["card-1", "card-1"] (.days 1) "operator"
    "compensation" 500 he
  exact ⟨rfl, h.left⟩

end Billing
