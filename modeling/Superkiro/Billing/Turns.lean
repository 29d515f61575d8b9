import Superkiro.Billing.Agreement

namespace Billing

open F64 Except Host AList

theorem Card.Turned.refl {card : Card} : Card.Turned [] card card := ⟨rfl, rfl⟩

theorem Card.Turned.trans {a b c : Card} (h : Card.Turned ts a b) (h' : Card.Turned ts' b c) :
    Card.Turned (ts ++ ts') a c where
  terms     := h'.terms.trans h.terms
  lifecycle := by
    have hl := h.lifecycle
    rw [Lifecycle.turns] at hl ⊢
    rw [List.foldlM_append, hl]
    exact h'.lifecycle

-- The turns that a change makes a card take.
def Change.turnsOf (k : String) : Change F → List Turn
  | .post turns key _ _  => if key = k then turns else []
  | .replace turns key _ => if key = k then turns else []
  | _                    => []

-- A card of which some credits were spent or held since.
def Card.Rebalanced (old new : Card) : Prop :=
  new = { old with creditUsed := new.creditUsed, creditReserved := new.creditReserved }

theorem Card.Rebalanced.turned {old new : Card} (h : Card.Rebalanced old new) :
    Card.Turned [] old new := by
  rw [h]
  exact ⟨rfl, rfl⟩

theorem Card.Rebalanced.family {old new : Card} (h : Card.Rebalanced old new) :
    new.family = old.family := by
  rw [h]
  rfl

theorem rebalanced_insert {cards : Table String Card} {card old : Card} {k : String}
    (hf : cards.lookup key = some old) (h : Card.Rebalanced old card)
    (hk : cards.lookup k = some c) :
    ∃ c', (cards.insert key card).lookup k = some c' ∧ Card.Rebalanced c c' := by
  by_cases he : k = key
  case pos =>
    subst he
    rw [hf, Option.some.injEq] at hk
    exact ⟨card, lookup_insert _, hk ▸ h⟩
  case neg => exact ⟨c, by rw [lookup_insert_ne he, hk], rfl⟩

section

variable [F64 F] [Host F] {t t' : Tables F} {c : Change F}

-- What a change may make of a card.
inductive Change.Makes (t : Tables F) (c : Change F) (k : String) (old new : Card) : Prop
  | balance (h : Card.Rebalanced old new) (ht : c.turnsOf k = [])
  | post (he : c = .post turns k new entry) (h : Postable t turns k new entry)
  | replace (he : c = .replace turns k new) (h : Replaceable t turns k new)

theorem Change.Step.card (h : Step t c t') (hk : t.Keyed) (ho : t.cards.lookup k = some old) :
    ∃ new, t'.cards.lookup k = some new ∧ c.Makes t k old new := by
  have same {c : Change F} (ht : c.turnsOf k = []) : c.Makes t k old old := .balance rfl ht
  have inserted {c : Change F} {key : String} {card was : Card}
      (hf : t.cards.lookup key = some was) (h : Card.Rebalanced was card) (ht : c.turnsOf k = []) :
      ∃ new, (t.cards.insert key card).lookup k = some new ∧ c.Makes t k old new := by
    obtain ⟨new, hn, hr⟩ := rebalanced_insert hf h ho
    exact ⟨new, hn, .balance hr ht⟩
  cases h
  case hold h => exact inserted h.found rfl rfl
  case extend card reserved r h =>
    have hid : card.id = r.cardId := hk.cards h.found
    have hf : t.cards.lookup card.id = some card := by rw [hid]; exact h.found
    exact inserted hf rfl rfl
  case debit card entry h =>
    have hf : t.cards.lookup entry.cardId = some card := h.owner ▸ h.found
    exact inserted hf rfl rfl
  case release r _ _ _ =>
    by_cases he : k = r.cardId
    case pos =>
      subst he
      refine ⟨old.refunded r.reservedMicroCredits, ?_, .balance rfl rfl⟩
      simp [Tables.releaseWith, lookup_update, ho]
    case neg => exact ⟨old, by simp [Tables.releaseWith, lookup_update, he, ho], same rfl⟩
  case clean active now =>
    have hm : k ∈ (t.reclaim active now).cards := (mem_foldl_update _).mpr (mem_of_lookup ho)
    obtain ⟨c', hc'⟩ := mem_iff_lookup.mp hm
    obtain ⟨old', ho', he⟩ := Tables.lookup_reclaim_cards hc'
    rw [ho, Option.some.injEq] at ho'
    refine ⟨c', hc', .balance ?_ rfl⟩
    rw [he, ←ho']
    rfl
  case post turns key card entry h =>
    by_cases he : k = key
    case pos =>
      subst he
      exact ⟨card, lookup_insert _, .post rfl h⟩
    case neg =>
      exact ⟨old, by simpa only [Tables.withCard, lookup_insert_ne he] using ho,
        same (if_neg (Ne.symm he))⟩
  case replace turns key card h =>
    by_cases he : k = key
    case pos =>
      subst he
      exact ⟨card, lookup_insert _, .replace rfl h⟩
    case neg =>
      exact ⟨old, by simpa only [Tables.putCard, lookup_insert_ne he] using ho,
        same (if_neg (Ne.symm he))⟩
  case charge card _ r h _ =>
    obtain ⟨old', hf, he, _⟩ := h.found
    have hr : Card.Rebalanced old' card := by
      rw [he]
      rfl
    have hid : card.id = r.cardId := hr.turned.id.trans (hk.cards hf)
    exact inserted (hid ▸ hf) hr rfl
  case publish h =>
    rw [h.configured]
    exact ⟨old, ho, same rfl⟩
  case recover =>
    have hc : t.recovered.cards = t.cards.mapValues fun id c =>
      { c with creditReserved := Tables.heldIn t.recovered.reservations id } := by
      simp only [Tables.recovered, Tables.restoreTemplateInvocations]
    refine ⟨{ old with creditReserved := Tables.heldIn t.recovered.reservations k }, ?_,
      .balance rfl rfl⟩
    simp only [hc, lookup_mapValues, ho, Option.map_some]
  all_goals exact ⟨old, ho, same rfl⟩

-- No change issues or deletes a card.
theorem Change.Step.mem_cards (h : Step t c t') (hk : t.Keyed) : k ∈ t'.cards ↔ k ∈ t.cards := by
  refine ⟨fun hm => ?_, fun hm => ?_⟩
  case refine_2 =>
    have ⟨old, ho⟩ := mem_iff_lookup.mp hm
    have ⟨new, hn, _⟩ := h.card hk ho
    exact mem_of_lookup hn
  case refine_1 =>
    have inserted {key : String} {card old : Card} (hf : t.cards.lookup key = some old)
        (hm : k ∈ t.cards.insert key card) : k ∈ t.cards := by
      cases AList.mem_insert _ |>.mp hm
      case inl he => exact he ▸ mem_of_lookup hf
      case inr hm => exact hm
    cases h
    case hold h => exact inserted h.found hm
    case extend card reserved r h =>
      have hid : card.id = r.cardId := hk.cards h.found
      exact inserted (hid ▸ h.found) hm
    case debit card entry h => exact inserted (h.owner ▸ h.found) hm
    case release => exact mem_update.mp hm
    case clean => exact (mem_foldl_update _).mp hm
    case post h =>
      have ⟨_, hf, _⟩ := h.found
      exact inserted hf hm
    case replace h =>
      have ⟨_, hf, _⟩ := h.found
      exact inserted hf hm
    case charge card _ r h _ =>
      have ⟨old, hf, he, _⟩ := h.found
      have hold : old.id = r.cardId := hk.cards hf
      have hid : card.id = r.cardId := (congrArg Card.id he).trans hold
      exact inserted (hid ▸ hf) hm
    case publish h => rwa [h.configured] at hm
    case recover =>
      have hc : t.recovered.cards = t.cards.mapValues fun id c =>
        { c with creditReserved := Tables.heldIn t.recovered.reservations id } := by
        simp only [Tables.recovered, Tables.restoreTemplateInvocations]
      exact (mem_mapValues _).mp (hc ▸ hm)
    all_goals exact hm

omit [F64 F] [Host F] in
theorem Change.Makes.turned (h : c.Makes t k old new) (ho : t.cards.lookup k = some old) :
    Card.Turned (c.turnsOf k) old new := by
  cases h
  case balance h ht => exact ht ▸ h.turned
  case post he h =>
    have ⟨_, hf, _, _, _, _, _, ht⟩ := h.found
    rw [ho, Option.some.injEq] at hf
    rw [he, Change.turnsOf, if_pos rfl, hf]
    exact ht
  case replace he h =>
    have ⟨_, hf, ht⟩ := h.found
    rw [ho, Option.some.injEq] at hf
    rw [he, Change.turnsOf, if_pos rfl, hf]
    exact ht.toTurned

omit [F64 F] [Host F] in
-- Only replacing a card changes its refresh tokens.
theorem Change.Makes.family (h : c.Makes t k old new) (ho : t.cards.lookup k = some old) :
    new.family = old.family ∨ ∃ turns, c = .replace turns k new := by
  cases h
  case balance h _ => exact .inl h.family
  case post h =>
    have ⟨_, hf, _, _, _, _, hfam, _⟩ := h.found
    rw [ho, Option.some.injEq] at hf
    exact .inl (hf ▸ hfam)
  case replace he _ => exact .inr ⟨_, he⟩

theorem Change.Step.turned (h : Step t c t') (hk : t.Keyed) (ho : t.cards.lookup k = some old) :
    ∃ new, t'.cards.lookup k = some new ∧ Card.Turned (c.turnsOf k) old new := by
  have ⟨new, hn, hm⟩ := h.card hk ho
  exact ⟨new, hn, hm.turned ho⟩

omit [F64 F] [Host F] in
theorem Op.Makes.turnsOf {op : Op F} {turn : Turn} (h : op.Makes t c) (ht : turn ∈ c.turnsOf k) :
    ∃ turns, op.Turns k turns ∧ turn ∈ turns := by
  cases h
  case post _ _ h =>
    simp only [Change.turnsOf, List.mem_ite_nil_right] at ht
    have ⟨he, ht⟩ := ht
    exact ⟨_, he ▸ h, ht⟩
  case replace _ _ h _ =>
    simp only [Change.turnsOf, List.mem_ite_nil_right] at ht
    have ⟨he, ht⟩ := ht
    exact ⟨_, he ▸ h, ht⟩
  all_goals cases ht

namespace Engine

variable {e : Engine F} {io : Io} {op : Op F} {old : Card}

omit [F64 F] [Host F] in
theorem source_eq (h : op ≠ .reload) : e.source op = e.tables := by
  cases op <;> first | rfl | exact absurd rfl h

theorem exec_keyed (io : Io) (hk : e.tables.Keyed) (hop : op ≠ .reload) :
    (e.exec io op).tables.Keyed := by
  have ⟨⟨cs, hr, _⟩, _⟩ := exec_effect (e := e) io op (by rwa [source_eq hop])
  rw [source_eq hop] at hr
  exact hr.preserves (fun hk hs => hs.keyed hk) hk

-- An operation leaves a card at what its turns make of it, under the same terms.
theorem exec_turned (io : Io) (hk : e.tables.Keyed) (hop : op ≠ .reload)
    (ho : e.tables.cards.lookup k = some old) :
    ∃ ts new, (e.exec io op).tables.cards.lookup k = some new ∧ Card.Turned ts old new ∧
      ∀ t ∈ ts, ∃ turns, op.Turns k turns ∧ t ∈ turns := by
  have ⟨⟨cs, hr, hm⟩, _⟩ := exec_effect (e := e) io op (by rwa [source_eq hop])
  rw [source_eq hop] at hr hm
  let P (t : Tables F) := t.Keyed ∧ ∃ ts new, t.cards.lookup k = some new ∧
    Card.Turned ts old new ∧ ∀ t ∈ ts, ∃ turns, op.Turns k turns ∧ t ∈ turns
  refine (hr.preserves_mem (I := P) ?_ ⟨hk, [], old, ho, .refl, by simp⟩).right
  intro t c t' hc ⟨hk, ts, new, hn, ht, hts⟩ hs
  have ⟨new', hn', ht'⟩ := hs.turned hk hn
  refine ⟨hs.keyed hk, ts ++ c.turnsOf k, new', hn', ht.trans ht', fun t hmem => ?_⟩
  cases List.mem_append.mp hmem
  case inl h => exact hts t h
  case inr h => exact (hm c hc).turnsOf h

-- A transaction that changes a card makes it take the turns of its operation.
theorem transact_posts {txn : Result (Txn F Card)} (h : Posts e.tables op txn)
    (hok : (e.transact io txn).1 = .ok card) : txn = .ok (.answer card) ∨
      ∃ key old turns, op.Turns key turns ∧ e.tables.cards.lookup key = some old ∧
        (e.transact io txn).2.tables.cards.lookup key = some card ∧ Card.Turned turns old card := by
  cases transact_eq_ok (Commits.of_post h).publishes (Prod.ext hok rfl)
  case inl ha => exact .inl ha.left
  case inr hw =>
    have ⟨c, pub, hw, hc⟩ := hw
    have ⟨key, card', entry, _, hp, _, _, _, _, turns, ht, hpost⟩ := h hw
    have ⟨old, hf, _, _, _, _, _, hturn⟩ := hpost.found
    cases hp
    exact .inr ⟨key, old, turns, ht, hf, by rw [hc.tables_eq rfl]; exact lookup_insert _, hturn⟩

theorem transact_replaces {txn : Result (Txn F α)} (h : Replaces e.tables op txn)
    (hok : (e.transact io txn).1 = .ok a) : txn = .ok (.answer a) ∨
      ∃ key old new turns, op.Turns key turns ∧ e.tables.cards.lookup key = some old ∧
        (e.transact io txn).2.tables.cards.lookup key = some new ∧ Card.Turned turns old new ∧
        op.Refreshes old.family new.family := by
  cases transact_eq_ok (Commits.of_replace h).publishes (Prod.ext hok rfl)
  case inl ha => exact .inl ha.left
  case inr hw =>
    have ⟨c, pub, hw, hc⟩ := hw
    have ⟨key, old, card, turns, hp, hf, ht, hkept, hr⟩ := h hw
    cases hp
    exact .inr ⟨key, old, card, turns, ht, hf, by rw [hc.tables_eq rfl]; exact lookup_insert _,
      hkept.toTurned, hr⟩

end Engine
end
end Billing
