import Superkiro.Billing.Exec
import Superkiro.Billing.Pricing

namespace Billing

open F64 Except Host AList

-- What is known of a settlement in flight.
structure Billed (t : Tables F) (id : String) (p : PendingSettlement F) : Prop where
  reservation : ∃ r, t.reservations.lookup id = some r ∧ r.state = .held ∧
    r.cardId = p.entry.cardId
  found       : ∃ c, t.cards.lookup p.entry.cardId = some c
  invocation  : p.entry.invocationId = some id
  usage       : p.entry.kind = .usage
  charge      : 0 ≤ p.entry.creditsCharged.val
  bounded     : p.entry.creditsCharged.val ≤ maxSettlementMicroCredits.val
  cost        : 0 ≤ p.entry.providerCostMicroCny.val

-- What reservations hold of a card's credits together.
def Tables.heldCredits (t : Tables F) (cardId : String) : Int :=
  t.reservations.total fun _ r => r.hold cardId

-- Held credits are accounted for: cards hold what their reservations do.
structure Tables.Accounted (t : Tables F) : Prop where
  keyed    : t.Keyed
  reserved : ∀ {k c}, t.cards.lookup k = some c → c.creditReserved.val = t.heldCredits k
  nonneg   : ∀ {id r}, t.reservations.lookup id = some r → 0 ≤ r.reservedMicroCredits.val
  owned    : ∀ {id r}, t.reservations.lookup id = some r → r.state = .held →
    ∃ c, t.cards.lookup r.cardId = some c
  used     : ∀ {k c}, t.cards.lookup k = some c → 0 ≤ c.creditUsed.val
  billed   : ∀ {id p}, t.pendingSettlements.lookup id = some p → Billed t id p

section

variable {t t' : Tables F} {id cardId k : String} {r : CreditReservation F} {c card : Card}

theorem Billed.of_lookup {p : PendingSettlement F} (h : Billed t id p)
    (hr : ∀ {r}, t.reservations.lookup id = some r → r.state = .held →
      ∃ r', t'.reservations.lookup id = some r' ∧ r'.state = .held ∧ r'.cardId = r.cardId)
    (hc : ∀ {k c}, t.cards.lookup k = some c → ∃ c', t'.cards.lookup k = some c') :
    Billed t' id p := by
  have ⟨r, hl, hh, ho⟩ := h.reservation
  have ⟨r', hl', hh', ho'⟩ := hr hl hh
  have ⟨c, hf⟩ := h.found
  exact ⟨⟨r', hl', hh', ho'.trans ho⟩, hc hf, h.invocation, h.usage, h.charge, h.bounded, h.cost⟩

theorem exists_lookup_insert {α : Type} {t : Table String α} {v w : α}
    (h : t.lookup k = some w) : ∃ w', (t.insert id v).lookup k = some w' :=
  mem_iff_lookup.mp <| by simp [mem_of_lookup h]

theorem hold_nonneg (k : String) (h : 0 ≤ r.reservedMicroCredits.val) : 0 ≤ r.hold k := by
  unfold CreditReservation.hold
  split <;> omega

theorem hold_of_held (hh : r.state = .held) : r.hold r.cardId = r.reservedMicroCredits.val := by
  simp [CreditReservation.hold, hh]

theorem hold_of_other (h : r.cardId ≠ k) : r.hold k = 0 := by
  simp [CreditReservation.hold, h]

theorem hold_of_terminal (h : r.state ≠ .held) : r.hold k = 0 := by
  simp [CreditReservation.hold, h]

theorem hold_finish {s : ReservationState} (h : s ≠ .held) : (r.finish s).hold k = 0 := by
  simp [CreditReservation.hold, CreditReservation.finish, h]

namespace Tables.Accounted

theorem hold_le (h : t.Accounted) (k : String) (hr : t.reservations.lookup id = some r) :
    r.hold k ≤ t.heldCredits k :=
  le_total (fun _ _ hv => hold_nonneg k (h.nonneg hv)) hr

theorem held_nonneg (h : t.Accounted) (k : String) : 0 ≤ t.heldCredits k :=
  total_nonneg fun _ _ hv => hold_nonneg k (h.nonneg hv)

-- What remains accounted for when one card and one reservation change.
theorem of_insert (h : t.Accounted) (hk : t'.Keyed)
    (hc : t'.cards = t.cards.insert cardId card) (hr : t'.reservations = t.reservations.insert id r)
    (hf : t.cards.lookup cardId = some c) (ho : r.cardId = cardId)
    (hold : ∀ {old}, t.reservations.lookup id = some old → old.state = .held → old.cardId = cardId)
    (hres : card.creditReserved.val = c.creditReserved.val
      - ((t.reservations.lookup id).map (·.hold cardId)).getD 0 + r.hold cardId)
    (hn : 0 ≤ r.reservedMicroCredits.val) (hu : 0 ≤ card.creditUsed.val)
    (hb : ∀ {id p}, t'.pendingSettlements.lookup id = some p → Billed t' id p) :
    t'.Accounted where
  keyed := hk
  reserved {k c'} hl := by
    rw [heldCredits, hr, total_insert']
    rw [hc, lookup_insert_iff] at hl
    cases hl
    case inl hl =>
      have ⟨he, hv⟩ := hl
      subst he hv
      rw [hres, h.reserved hf, heldCredits]
    case inr hl =>
      have ⟨hne, hl⟩ := hl
      have hz : ((t.reservations.lookup id).map (·.hold k)).getD 0 = 0 := by
        cases ho' : t.reservations.lookup id
        case none => rfl
        case some old =>
          by_cases hh : old.state = .held
          case pos => exact hold_of_other fun he => hne (he ▸ (hold ho' hh))
          case neg => exact hold_of_terminal hh
      rw [h.reserved hl, heldCredits, hold_of_other (ho ▸ hne.symm)]
      simp only [hz]
      omega
  nonneg {id' r'} hl := by
    rw [hr, lookup_insert_iff] at hl
    cases hl
    case inl hl => exact hl.right ▸ hn
    case inr hl => exact h.nonneg hl.right
  owned {id' r'} hl hh := by
    rw [hr, lookup_insert_iff] at hl
    rw [hc]
    cases hl
    case inl hl => exact ⟨card, by rw [←hl.right, ho, lookup_insert]⟩
    case inr hl =>
      have ⟨_, hf⟩ := h.owned hl.right hh
      exact exists_lookup_insert hf
  used {k c'} hl := by
    rw [hc, lookup_insert_iff] at hl
    cases hl
    case inl hl => exact hl.right ▸ hu
    case inr hl => exact h.used hl.right
  billed := hb

-- What remains accounted for when only one card changes, and not what is held of it.
theorem of_insert_card (h : t.Accounted) (hk : t'.Keyed)
    (hc : t'.cards = t.cards.insert cardId card) (hr : t'.reservations = t.reservations)
    (hp : t'.pendingSettlements = t.pendingSettlements) (hf : t.cards.lookup cardId = some c)
    (hres : card.creditReserved = c.creditReserved) (hu : 0 ≤ card.creditUsed.val) :
    t'.Accounted where
  keyed := hk
  reserved {k c'} hl := by
    rw [hc, lookup_insert_iff] at hl
    rw [heldCredits, hr]
    cases hl
    case inl hl =>
      have ⟨he, hv⟩ := hl
      subst he hv
      rw [hres, h.reserved hf, heldCredits]
    case inr hl => exact h.reserved hl.right
  nonneg := hr ▸ h.nonneg
  owned {id' r'} hl hh := by
    rw [hr] at hl
    rw [hc]
    have ⟨_, hf⟩ := h.owned hl hh
    exact exists_lookup_insert hf
  used {k c'} hl := by
    rw [hc, lookup_insert_iff] at hl
    cases hl
    case inl hl => exact hl.right ▸ hu
    case inr hl => exact h.used hl.right
  billed hl := by
    rw [hp] at hl
    refine (h.billed hl).of_lookup (fun hr' hh => ⟨_, hr ▸ hr', hh, rfl⟩) fun hf => ?_
    rw [hc]
    exact exists_lookup_insert hf

-- What remains accounted for when nothing of it changes.
theorem congr (h : t.Accounted) (hk : t'.Keyed) (hc : t'.cards = t.cards)
    (hr : t'.reservations = t.reservations)
    (hp : t'.pendingSettlements = t.pendingSettlements) : t'.Accounted where
  keyed    := hk
  reserved hl := by
    rw [heldCredits, hr]
    exact h.reserved (hc ▸ hl)
  nonneg   := by rw [hr]; exact h.nonneg
  owned    := by rw [hr, hc]; exact h.owned
  used     := by rw [hc]; exact h.used
  billed hl := by
    rw [hp] at hl
    exact (h.billed hl).of_lookup (fun h hh => ⟨_, hr ▸ h, hh, rfl⟩) fun h => ⟨_, hc ▸ h⟩

end Tables.Accounted

-- What a card holds after some holds are returned to it, which it held together.
theorem reserved_foldl_reclaimFrom (os : List (CreditReservation F)) {cards : Table String Card}
    (hn : ∀ o ∈ os, 0 ≤ o.reservedMicroCredits.val) (hh : ∀ o ∈ os, o.state = .held)
    (hc : cards.lookup k = some c)
    (hle : (os.map (·.hold k)).sum ≤ c.creditReserved.val) :
    ∃ c', (os.foldl Tables.reclaimFrom cards).lookup k = some c' ∧
      c' = { c with creditReserved := c'.creditReserved } ∧
      c'.creditReserved.val = c.creditReserved.val - (os.map (·.hold k)).sum := by
  induction os generalizing cards c
  case nil => exact ⟨c, hc, rfl, by simp⟩
  case cons o os hi =>
    have hsum : 0 ≤ (os.map (·.hold k)).sum :=
      List.sum_nonneg (by simpa using fun o' ho => hold_nonneg k (hn o' (by simp [ho])))
    have hno := hn o (by simp)
    have hup := c.creditReserved.upper
    simp only [List.map_cons, List.sum_cons] at hle
    by_cases he : o.cardId = k
    case pos =>
      have ho : o.hold k = o.reservedMicroCredits.val := he ▸ hold_of_held (hh o (by simp))
      have hv : (c.refunded o.reservedMicroCredits).creditReserved.val =
          c.creditReserved.val - o.reservedMicroCredits.val := by
        simp only [Card.refunded, I64.val_satSub]
        omega
      have hl : (Tables.reclaimFrom cards o).lookup k = some (c.refunded o.reservedMicroCredits) := by
        simp [Tables.reclaimFrom, lookup_update, he, hc]
      obtain ⟨c', hc', heq, hv'⟩ := hi (fun o' ho => hn o' (by simp [ho]))
        (fun o' ho => hh o' (by simp [ho])) hl (by omega)
      refine ⟨c', hc', heq, ?_⟩
      simp only [List.map_cons, List.sum_cons]
      omega
    case neg =>
      have ho : o.hold k = 0 := hold_of_other he
      have hl : (Tables.reclaimFrom cards o).lookup k = some c := by
        simp [Tables.reclaimFrom, lookup_update, Ne.symm he, hc]
      obtain ⟨c', hc', heq, hv'⟩ := hi (fun o' ho => hn o' (by simp [ho]))
        (fun o' ho => hh o' (by simp [ho])) hl (by omega)
      refine ⟨c', hc', heq, ?_⟩
      simp only [List.map_cons, List.sum_cons]
      omega

section

variable {active : Table String Nat} {now : Nat}

theorem held_of_orphan (h : r ∈ t.orphans active now) :
    (∃ id, t.reservations.lookup id = some r) ∧ r.state = .held := by
  simp only [Tables.orphans, List.mem_filter, mem_values, Tables.isOrphan,
    CreditReservation.isExpired, Bool.and_eq_true, decide_eq_true_eq] at h
  exact ⟨h.left, h.right.left.left.left⟩

-- What the janitor reclaims and what is still held afterwards is what was held before.
theorem sum_orphans (active : Table String Nat) (now : Nat) (k : String) (hk : t.Keyed) :
    ((t.orphans active now).map (·.hold k)).sum +
    ((t.reclaim active now).prune now).heldCredits k = t.heldCredits k := by
  have hz : ((t.reclaim active now).prune now).heldCredits k =
      (t.reclaim active now).heldCredits k := by
    refine total_foldl_erase fun id hid r hr => ?_
    have ⟨r', hr', hp⟩ := (Tables.mem_pruneIds (Tables.reclaim_keyed hk)).mp hid
    rw [hr, Option.some.injEq] at hr'
    subst hr'
    simp only [Tables.isPrunable, Bool.and_eq_true, decide_eq_true_eq] at hp
    exact hold_of_terminal hp.left.left
  rw [hz, Tables.orphans, sum_values_filter, Tables.heldCredits, Tables.reclaim,
    total_mapValues, ←total_add, Tables.heldCredits]
  refine total_congr fun id r _ => ?_
  split <;> simp [hold_finish]

theorem lookup_clean_cards (ha : t.Accounted)
    (hl : ((t.reclaim active now).prune now).cards.lookup k = some c) :
    ∃ old, t.cards.lookup k = some old ∧ c = { old with creditReserved := c.creditReserved } ∧
      c.creditReserved.val = ((t.reclaim active now).prune now).heldCredits k := by
  have ⟨old, ho, _⟩ := Tables.lookup_reclaim_cards hl
  have hs := sum_orphans active now k ha.keyed
  have hn : 0 ≤ ((t.reclaim active now).prune now).heldCredits k := by
    refine total_nonneg fun id r hr => ?_
    have ⟨old, ho, hr, _⟩ := (Tables.lookup_clean ha.keyed).mp hr
    rw [hr]
    exact hold_nonneg k (by simpa using ha.nonneg ho)
  have ⟨c', hc', he, hv⟩ := reserved_foldl_reclaimFrom (t.orphans active now)
    (fun o h => ha.nonneg (held_of_orphan h).left.choose_spec) (fun o h => (held_of_orphan h).right)
    ho (by rw [ha.reserved ho]; omega)
  have hc : c' = c := by simpa [hl] using hc'.symm.trans hl
  rw [ha.reserved ho] at hv
  subst hc
  exact ⟨old, ho, he, by omega⟩

theorem clean_accounted [F64 F] [Host F] (ha : t.Accounted) :
    ((t.reclaim active now).prune now).Accounted where
  keyed := Change.Step.clean.keyed ha.keyed
  reserved hl := by
    have ⟨_, _, _, h⟩ := lookup_clean_cards ha hl
    exact h
  nonneg hl := by
    have ⟨old, ho, hr, _⟩ := (Tables.lookup_clean ha.keyed).mp hl
    simpa [hr] using ha.nonneg ho
  owned hl hh := by
    have ⟨old, ho, hr, _⟩ := (Tables.lookup_clean ha.keyed).mp hl
    have hr' := Tables.reclaimed_of_held (hr ▸ hh)
    rw [hr'] at hr
    subst hr
    have ⟨_, hf⟩ := ha.owned ho hh
    exact mem_iff_lookup.mp ((mem_foldl_update _).mpr (mem_of_lookup hf))
  used hl := by
    have ⟨old, ho, he, _⟩ := lookup_clean_cards ha hl
    have := ha.used ho
    rw [he]
    exact this
  billed hp := by
    refine (ha.billed hp).of_lookup (fun hr hh => ⟨_, ?_, hh, rfl⟩) fun hf => ?_
    · exact Tables.lookup_clean_of_pending ha.keyed hr hh (mem_of_lookup hp)
    · exact mem_iff_lookup.mp ((mem_foldl_update _).mpr (mem_of_lookup hf))

end

theorem total_foldl_recordSettled (horizon : Nat) (es : List (LedgerEntry F))
    (rs : Table String (CreditReservation F)) :
    (es.foldl (Tables.recordSettled horizon) rs).total (fun _ r => r.hold k) =
      rs.total fun _ r => r.hold k := by
  induction es generalizing rs
  case nil => rfl
  case cons e es hi =>
    rw [List.foldl_cons, hi, Tables.recordSettled]
    split
    case h_2 => rfl
    case h_1 =>
      split
      case isTrue => exact total_orInsert_of_zero (hold_of_terminal nofun)
      case isFalse => rfl

theorem recorded_nonneg {horizon : Nat} (ha : t.Accounted)
    (h : (t.ledger.foldl (Tables.recordSettled horizon) t.reservations).lookup id = some r) :
    0 ≤ r.reservedMicroCredits.val := by
  rw [Tables.lookup_foldl_recordSettled] at h
  cases hl : t.reservations.lookup id
  case some old =>
    rw [hl, Option.some_or, Option.some.injEq] at h
    exact h ▸ ha.nonneg hl
  case none =>
    simp only [hl, Option.none_or, Option.map_eq_some_iff] at h
    have ⟨_, _, hr⟩ := h
    simp [←hr, CreditReservation.ofEntry, CreditReservation.new]

-- After a restart cards hold exactly what is still held of them.
theorem heldIn_recovered (ha : t.Accounted) (hc : t.cards.lookup k = some c) :
    (Tables.heldIn t.recoveredReservations k).val =
      t.recoveredReservations.total fun _ r => r.hold k := by
  have hs : ((t.recoveredReservations.values.filter fun r => r.cardId = k && r.state = .held).map
      (·.reservedMicroCredits.val)).sum = t.recoveredReservations.total fun _ r => r.hold k := by
    rw [sum_values_filter]
    refine total_congr fun _ r _ => ?_
    simp [CreditReservation.hold]
  have hle : (t.recoveredReservations.total fun _ r => r.hold k) ≤ t.heldCredits k := by
    rw [Tables.recoveredReservations, total_retain, Tables.heldCredits,
      ←total_foldl_recordSettled t.horizon t.ledger]
    refine total_le fun id r h => ?_
    have := hold_nonneg k (recorded_nonneg ha h)
    split <;> omega
  have := c.creditReserved.upper
  rw [←ha.reserved hc] at hle
  rw [Tables.heldIn, I64.val_satSum (by simp), List.map_map, Function.comp_def, hs]
  · simp
    omega
  · intro x hx
    simp only [List.mem_map, List.mem_filter, mem_values] at hx
    obtain ⟨r, ⟨⟨_, hr⟩, _⟩, hx⟩ := hx
    exact hx ▸ recorded_nonneg ha (lookup_retain _ |>.mp hr).left

-- Each change keeps held credits accounted for.

variable [F64 F] [Host F] {entry : LedgerEntry F}

theorem Holdable.accounted (h : Holdable t card r) (ha : t.Accounted) :
    (t.holdWith card r).Accounted := by
  have hz : ((t.reservations.lookup r.invocationId).map (·.hold r.cardId)).getD 0 = 0 := by
    cases ho : t.reservations.lookup r.invocationId
    case none => rfl
    case some old => exact hold_of_terminal (by simp [(h.free ho).left])
  have hu := ha.used h.found
  refine ha.of_insert ((Change.Step.hold h).keyed ha.keyed) rfl rfl h.found rfl ?_ ?_ h.nonneg
    hu ?_
  · intro old ho hh
    simp [(h.free ho).left] at hh
  · have hc : r.reservedMicroCredits.val ≤ card.availableCredits.val := h.covered
    have hn : 0 ≤ r.reservedMicroCredits.val := h.nonneg
    have hr := ha.reserved h.found
    have hh := ha.held_nonneg r.cardId
    have := card.creditTotal.upper
    have := card.creditReserved.upper
    simp only [Card.availableCredits, I64.val_max0, I64.val_satSub, I64.val_satAdd] at hc
    rw [hz, hold_of_held h.held]
    simp only [I64.val_satAdd]
    omega
  · intro id p hp
    refine (ha.billed hp).of_lookup (fun {r'} hr hh => ?_) exists_lookup_insert
    have hne : id ≠ r.invocationId := by
      intro he
      subst he
      simp [(h.free hr).left] at hh
    exact ⟨r', (lookup_insert_ne hne).trans hr, hh, rfl⟩

theorem Extendable.accounted (h : Extendable t id card reserved r) (ha : t.Accounted) :
    (t.extendWith id card reserved r).Accounted := by
  have ⟨old, ho, hh, hr, hle, hv⟩ := h.grows
  have hid : card.id = r.cardId := ha.keyed.cards h.found
  have hn : 0 ≤ old.reservedMicroCredits.val := ha.nonneg ho
  have hle : old.reservedMicroCredits.val ≤ r.reservedMicroCredits.val := hle
  have hu := r.reservedMicroCredits.upper
  have hc : old.cardId = r.cardId := by rw [hr]
  have hs : r.state = .held := by rw [hr, hh]
  have hused := ha.used h.found
  refine ha.of_insert ((Change.Step.extend h).keyed ha.keyed) rfl rfl (hid ▸ h.found) hid.symm
    ?_ ?_ (hn.trans hle) hused ?_
  · intro old' ho' _
    rw [ho, Option.some.injEq] at ho'
    rw [←ho', hc, hid]
  · have hold : old.hold card.id = old.reservedMicroCredits.val := by
      rw [hid, ←hc, hold_of_held hh]
    have hnew : r.hold card.id = r.reservedMicroCredits.val := by rw [hid, hold_of_held hs]
    simp only [ho, Option.map_some, Option.getD_some, hold, hnew, hv, I64.val_satSub]
    omega
  · intro id' p hp
    refine (ha.billed hp).of_lookup (fun {r'} hr' hh' => ?_) exists_lookup_insert
    by_cases he : id' = id
    case pos =>
      subst he
      rw [ho, Option.some.injEq] at hr'
      exact ⟨r, lookup_insert _, hs, by rw [←hr', hc]⟩
    case neg => exact ⟨r', (lookup_insert_ne he).trans hr', hh', rfl⟩

theorem Debitable.accounted (h : Debitable t id r card entry) (ha : t.Accounted) :
    (t.debit id r card entry).Accounted := by
  have hn := ha.nonneg h.reservation
  have hle := ha.hold_le r.cardId h.reservation
  have hr := ha.reserved h.found
  rw [hold_of_held h.held, ←hr] at hle
  have ho := h.owner
  refine ha.of_insert ((Change.Step.debit h).keyed ha.keyed) rfl rfl (ho ▸ h.found) ho.symm
    ?_ ?_ hn ?_ ?_
  · intro old hold _
    rw [h.reservation, Option.some.injEq] at hold
    rw [←hold, ho]
  · have := card.creditReserved.upper
    simp only [h.reservation, Option.map_some, Option.getD_some, ho, hold_of_held h.held,
      hold_finish (s := .settled) nofun, I64.val_satSub]
    omega
  · have hc : 0 ≤ entry.creditsCharged.val := h.charge
    have := ha.used h.found
    simp only [I64.val_satAdd]
    omega
  · intro id' p hp
    have ⟨hne, hp⟩ := lookup_erase_iff.mp hp
    refine (ha.billed hp).of_lookup (fun {r'} hr' hh' => ?_) exists_lookup_insert
    exact ⟨r', (lookup_insert_ne hne).trans hr', hh', rfl⟩

theorem releaseWith_accounted (ha : t.Accounted) (hp : id ∉ t.pendingSettlements)
    (hl : t.reservations.lookup id = some r) (hh : r.state = .held) :
    (t.releaseWith id r).Accounted := by
  have hn := ha.nonneg hl
  obtain ⟨card, hf⟩ := ha.owned hl hh
  have hle := ha.hold_le r.cardId hl
  have hr := ha.reserved hf
  rw [hold_of_held hh, ←hr] at hle
  have hused := ha.used hf
  have hc : (t.releaseWith id r).cards =
      t.cards.insert r.cardId (card.refunded r.reservedMicroCredits) := by
    simp [Tables.releaseWith, update, hf]
  refine ha.of_insert ((Change.Step.release hp hl hh).keyed ha.keyed) hc rfl hf rfl ?_ ?_ hn
    hused ?_
  · intro old hold _
    rw [hl, Option.some.injEq] at hold
    rw [hold]
  · have := card.creditReserved.upper
    simp only [hl, Option.map_some, Option.getD_some, hold_of_held hh,
      hold_finish (s := .released) (by rintro ⟨⟩), Card.refunded, I64.val_satSub]
    omega
  · intro id' p hp'
    refine (ha.billed hp').of_lookup (fun {r'} hr' hh' => ?_) fun hf => ?_
    · have hne : id' ≠ id := fun he => hp (he ▸ mem_of_lookup hp')
      exact ⟨r', (lookup_insert_ne hne).trans hr', hh', rfl⟩
    · rw [hc]
      exact exists_lookup_insert hf

omit [Host F] in
theorem withPending_accounted {p : PendingSettlement F} (ha : t.Accounted)
    (h : t.priceSettlement id tokens exposed provider target now = .ok p) :
    (t.withPending id p).Accounted where
  keyed    := ⟨ha.keyed.cards, ha.keyed.reservations, ha.keyed.topupCodes⟩
  reserved := ha.reserved
  nonneg   := ha.nonneg
  owned    := ha.owned
  used     := ha.used
  billed hp := by
    cases lookup_insert_iff.mp hp
    case inr hp => exact (ha.billed hp.right).of_lookup (fun h hh => ⟨_, h, hh, rfl⟩) fun h => ⟨_, h⟩
    case inl hp =>
      have ⟨he, hv⟩ := hp
      subst he hv
      have ⟨r, card, h⟩ := priceSettlement_cases h
      have ho := h.owner.trans (ha.keyed.cards h.found)
      exact ⟨⟨r, h.reservation, h.held, ho.symm⟩, ⟨card, ho ▸ h.found⟩, h.invocation, h.usage,
        h.charge, h.bounded, h.cost⟩

theorem recovered_accounted {keys : Table String ProviderKey} (ha : t.Accounted) :
    ({ t.recovered with providerKeys := keys } : Tables F).Accounted where
  keyed := Change.Step.recover.keyed ha.keyed
  reserved hl := by
    have ⟨c, hc, he⟩ := Option.map_eq_some_iff.mp ((lookup_mapValues _).symm.trans hl)
    rw [←he]
    exact heldIn_recovered ha (t := t) hc
  nonneg hl := by
    exact recorded_nonneg ha (lookup_retain _ |>.mp hl).left
  owned hl hh := by
    cases Tables.lookup_recovered_cases hl
    case inl h =>
      have ⟨c, hf⟩ := ha.owned h.left hh
      exact mem_iff_lookup.mp ((mem_mapValues _).mpr (mem_of_lookup hf))
    case inr h =>
      have ⟨_, _, _, _, hr⟩ := h
      simp [hr, CreditReservation.ofEntry] at hh
  used hl := by
    have ⟨c, hc, he⟩ := Option.map_eq_some_iff.mp ((lookup_mapValues _).symm.trans hl)
    rw [←he]
    exact ha.used (k := _) (c := c) hc
  billed hp := by
    refine (ha.billed hp).of_lookup (fun hr hh => ⟨_, ?_, hh, rfl⟩) fun hf => ?_
    · exact Tables.lookup_recovered_of hr fun _ => mem_of_lookup hp
    · exact mem_iff_lookup.mp ((mem_mapValues _).mpr (mem_of_lookup hf))

theorem Change.Step.accounted {c : Change F} (h : Change.Step t c t') (ha : t.Accounted) :
    t'.Accounted := by
  have hk := h.keyed ha.keyed
  cases h
  case hold h => exact h.accounted ha
  case extend h => exact h.accounted ha
  case pend h => exact withPending_accounted ha h
  case debit h => exact h.accounted ha
  case release hp hl hh => exact releaseWith_accounted ha hp hl hh
  case clean => exact clean_accounted ha
  case post key card entry h =>
    have ⟨old, hf, _, hr, _, hu, _⟩ := h.found
    refine ha.of_insert_card hk rfl rfl rfl hf hr ?_
    have := ha.used hf
    have := entry.taken_nonneg
    rw [hu, I64.val_satAdd]
    omega
  case replace h =>
    have ⟨old, hf, hs⟩ := h.found
    exact ha.of_insert_card hk rfl rfl rfl hf hs.reserved (hs.used ▸ ha.used hf)
  case consume => exact ha.congr hk rfl rfl rfl
  case use => exact ha.congr hk rfl rfl rfl
  case charge card entry r h _ =>
    have ⟨old, hf, he, hu⟩ := h.found
    have hid := ha.keyed.cards hf
    have hid : card.id = r.cardId := by rw [he, ←hid]
    refine ha.of_insert_card hk rfl rfl rfl (hid ▸ hf) (by rw [he]) ?_
    have := ha.used hf
    have := h.nonneg
    omega
  case archive => exact ha.congr hk rfl rfl rfl
  case templates => exact ha.congr hk rfl rfl rfl
  case publish h =>
    rw [h.configured] at hk ⊢
    exact ha.congr hk rfl rfl rfl
  case recover => exact recovered_accounted ha

omit [F64 F] [Host F] in
theorem Tables.Fresh.accounted (h : t.Fresh) : t.Accounted where
  keyed       := h.keyed
  reserved hc := by simp [h.unreserved hc, heldCredits, h.reservations, total]
  nonneg hr   := by simp [h.reservations] at hr
  owned hr    := by simp [h.reservations] at hr
  used hc     := by simp [h.unused hc]
  billed hp   := by simp [h.pending] at hp

theorem Engine.Started.accounted {e₀ e : Engine F} {ls : List (Engine.Label F)}
    (r : Run Engine.Step e₀ ls e) (h : e₀.Started) : e.Invariant Tables.Accounted :=
  (h.invariant.mono Tables.Fresh.accounted).run (fun h => h.keyed) (fun h hs => hs.accounted h) r

omit [F64 F] [Host F] in
theorem Tables.Accounted.held_val (h : t.Accounted) (k : String) :
    (t.held k).val = min 9223372036854775807 (t.heldCredits k) := by
  have hs : (((t.heldBy k).map (·.reservedMicroCredits)).map I64.val).sum = t.heldCredits k := by
    rw [List.map_map, heldBy, heldCredits, Function.comp_def, sum_values_filter]
    refine total_congr fun _ r _ => ?_
    simp [CreditReservation.hold]
  rw [held, I64.val_satSum (by simp), hs]
  · simp
  · simp only [heldBy, List.mem_map, List.mem_filter, mem_values]
    rintro _ ⟨r, ⟨⟨_, hr⟩, _⟩, rfl⟩
    exact h.nonneg hr

omit [F64 F] [Host F] in
theorem Tables.Accounted.held_eq (h : t.Accounted) (hc : t.cards.lookup k = some c) :
    c.creditReserved = t.held k := by
  have := c.creditReserved.upper
  rw [I64.eq_iff, h.held_val, ←h.reserved hc]
  omega

-- A hold whose settlement is pending is left alone.
theorem pending_kept {p : PendingSettlement F} {op : Op F} {e : Engine F}
    (h : e.Invariant Tables.Accounted) (hr : e.tables.reservations.lookup id = some r)
    (hh : r.state = .held) (hp : e.tables.pendingSettlements.lookup id = some p)
    (hop : (∃ id', op = .release id') ∨ ∃ now, op = .runJanitor now) (io : Io) :
    (e.exec io op).tables.reservations.lookup id = some r ∧
      (e.exec io op).tables.pendingSettlements.lookup id = some p := by
  have hsrc : e.source op = e.tables := by
    rcases hop with ⟨_, rfl⟩ | ⟨_, rfl⟩ <;> rfl
  have ⟨⟨cs, hs, hm⟩, _⟩ := Engine.exec_effect io op (h.source : Tables.Accounted (e.source op)).keyed
  rw [hsrc] at hs hm
  let P (t : Tables F) := t.Keyed ∧ t.reservations.lookup id = some r ∧
    t.pendingSettlements.lookup id = some p
  suffices hP : P (e.exec io op).tables from hP.right
  refine hs.preserves_mem (I := P) (fun {t c t'} hc ⟨hk, hr, hp⟩ hst => ⟨hst.keyed hk, ?_⟩)
    ⟨h.live.keyed, hr, hp⟩
  have hmake := hm c hc
  rcases hop with ⟨id', rfl⟩ | ⟨now, rfl⟩ <;> cases hmake <;> cases hst
  case release hn _ _ =>
    have hne : id ≠ id' := fun he => hn (he ▸ mem_of_lookup hp)
    exact ⟨(lookup_insert_ne hne).trans hr, hp⟩
  case clean => exact ⟨Tables.lookup_clean_of_pending hk hr hh (mem_of_lookup hp), hp⟩
  all_goals exact ⟨hr, hp⟩

-- In every reachable state, cards hold what their held reservations do, and a reservation with a
-- settlement pending is held, and neither a release nor the janitor returns it.
theorem held_credits_accounted {e₀ e : Engine F} {ls : List (Engine.Label F)}
    (run : Run Engine.Step e₀ ls e) (h₀ : e₀.Started) :
    (∀ {k c}, e.tables.cards.lookup k = some c → c.creditReserved = e.tables.held k) ∧
    (∀ {id p}, e.tables.pendingSettlements.lookup id = some p →
      ∃ r, e.tables.reservations.lookup id = some r ∧ r.state = .held ∧
        ∀ {op io}, (∃ id', op = .release id') ∨ (∃ now, op = .runJanitor now) →
          (e.exec io op).tables.reservations.lookup id = some r ∧
          (e.exec io op).tables.pendingSettlements.lookup id = some p) := by
  have h := h₀.accounted run
  refine ⟨h.live.held_eq, fun {id p} hp => ?_⟩
  have ⟨r, hr, hh, _⟩ := (h.live.billed hp).reservation
  exact ⟨r, hr, hh, fun {_ io} hop => pending_kept h hr hh hp hop io⟩

end

theorem held_credits_accounted_sample :
    let e := Engine.sample.exec {} (.reserve "card-1" "inv-1" .sample 10 100)
    ∃ c, e.tables.cards.lookup "card-1" = some c ∧ c.creditReserved = e.tables.held "card-1" ∧
      c.creditReserved = 75000 := by
  intro e
  have h := held_credits_accounted (.cons rfl .nil : Run Engine.Step Engine.sample
    [⟨.reserve "card-1" "inv-1" .sample 10 100, {}⟩] e) sample_started
  have hv : (e.tables.cards.lookup "card-1").map (·.creditReserved) = some 75000 := by
    decide +kernel
  have ⟨c, hc, hr⟩ := Option.map_eq_some_iff.mp hv
  exact ⟨c, hc, h.left hc, hr⟩

end Billing
