import Superkiro.Billing.Publication

namespace Billing

open AList

-- Entries are filed under the ids of what they are about.
structure Tables.Keyed (t : Tables F) : Prop where
  cards        : t.cards.Keyed Card.id
  reservations : t.reservations.Keyed CreditReservation.invocationId
  topupCodes   : t.topupCodes.Keyed TopupCode.id

namespace Tables

variable {t : Tables F} {active : Table String Nat} {now : Nat} {id : String}
variable {r : CreditReservation F}

-- Reservations after a run of the janitor.

def reclaimed (t : Tables F) (active : Table String Nat) (now : Nat) (r : CreditReservation F) :
    CreditReservation F :=
  if t.isOrphan active now r then r.finish .released else r

theorem lookup_reclaim : (t.reclaim active now).reservations.lookup id =
    (t.reservations.lookup id).map (t.reclaimed active now) :=
  lookup_mapValues _

theorem mem_pruneIds (hk : t.Keyed) :
    id ∈ t.pruneIds now ↔ ∃ r, t.reservations.lookup id = some r ∧ t.isPrunable now r := by
  simp only [pruneIds, List.mem_map, List.mem_filter, mem_values]
  constructor
  · rintro ⟨r, ⟨⟨k, h⟩, hp⟩, rfl⟩
    exact ⟨r, hk.reservations h ▸ h, hp⟩
  · rintro ⟨r, h, hp⟩
    exact ⟨r, ⟨⟨id, h⟩, hp⟩, hk.reservations h⟩

theorem lookup_prune (hk : t.Keyed) : (t.prune now).reservations.lookup id = some r ↔
    t.reservations.lookup id = some r ∧ t.isPrunable now r = false := by
  rw [prune, lookup_foldl_erase, mem_pruneIds hk]
  constructor
  · rintro ⟨hn, h⟩
    exact ⟨h, Bool.eq_false_iff.mpr fun hp => hn ⟨r, h, hp⟩⟩
  · rintro ⟨h, hp⟩
    refine ⟨?_, h⟩
    rintro ⟨r', h', hp'⟩
    simp_all

@[simp]
theorem reclaimed_invocationId : (t.reclaimed active now r).invocationId = r.invocationId := by
  unfold reclaimed
  split <;> rfl

@[simp]
theorem reclaimed_cardId : (t.reclaimed active now r).cardId = r.cardId := by
  unfold reclaimed
  split <;> rfl

@[simp]
theorem reclaimed_createdAtSecs : (t.reclaimed active now r).createdAtSecs = r.createdAtSecs := by
  unfold reclaimed
  split <;> rfl

@[simp]
theorem reclaimed_reservedMicroCredits :
    (t.reclaimed active now r).reservedMicroCredits = r.reservedMicroCredits := by
  unfold reclaimed
  split <;> rfl

-- What is still held wasn't reclaimed, and nor was what wasn't held.
theorem reclaimed_of_held (h : (t.reclaimed active now r).state = .held) :
    t.reclaimed active now r = r := by
  unfold reclaimed at h ⊢
  split
  case isTrue ho => simp [ho, CreditReservation.finish] at h
  case isFalse => rfl

theorem reclaimed_of_terminal (h : r.state ≠ .held) : t.reclaimed active now r = r := by
  simp [reclaimed, isOrphan, CreditReservation.isExpired, h]

theorem lookup_foldl_reclaimFrom {cards : Table String Card} {os : List (CreditReservation F)}
    (h : (os.foldl reclaimFrom cards).lookup k = some c) :
    ∃ old, cards.lookup k = some old ∧ c = { old with creditReserved := c.creditReserved } := by
  induction os generalizing cards
  case nil => exact ⟨c, h, rfl⟩
  case cons o os hi =>
    have ⟨mid, hm, hc⟩ := hi h
    rw [reclaimFrom, lookup_update] at hm
    split at hm
    case isFalse => exact ⟨mid, hm, hc⟩
    case isTrue he =>
      have ⟨old, ho, hm⟩ := Option.map_eq_some_iff.mp hm
      subst he
      refine ⟨old, ho, ?_⟩
      rw [hc, ←hm]
      rfl

-- The janitor changes nothing of a card but what is held of it.
theorem lookup_reclaim_cards (h : (t.reclaim active now).cards.lookup k = some c) :
    ∃ old, t.cards.lookup k = some old ∧ c = { old with creditReserved := c.creditReserved } :=
  lookup_foldl_reclaimFrom h

theorem reclaim_keyed (hk : t.Keyed) : (t.reclaim active now).Keyed where
  cards        := hk.cards.foldl (f := reclaimFrom) (fun _ h => h.update fun _ => rfl) _
  reservations := hk.reservations.mapValues fun _ _ => reclaimed_invocationId
  topupCodes   := hk.topupCodes

theorem lookup_clean (hk : t.Keyed) :
    ((t.reclaim active now).prune now).reservations.lookup id = some r ↔
      ∃ old, t.reservations.lookup id = some old ∧ r = t.reclaimed active now old ∧
        (t.reclaim active now).isPrunable now r = false := by
  rw [lookup_prune (reclaim_keyed hk), lookup_reclaim, Option.map_eq_some_iff]
  constructor
  · rintro ⟨⟨old, h, rfl⟩, hp⟩
    exact ⟨old, h, rfl, hp⟩
  · rintro ⟨old, h, rfl, hp⟩
    exact ⟨⟨old, h, rfl⟩, hp⟩

-- The janitor leaves a hold whose settlement is pending as it is.
theorem lookup_clean_of_pending (hk : t.Keyed) (h : t.reservations.lookup id = some r)
    (hh : r.state = .held) (hp : id ∈ t.pendingSettlements) :
    ((t.reclaim active now).prune now).reservations.lookup id = some r := by
  have hi : r.invocationId = id := hk.reservations h
  have ho : t.isOrphan active now r = false := by simp [isOrphan, hi, hp]
  have hr : t.reclaimed active now r = r := by simp [reclaimed, ho]
  exact (lookup_clean hk).mpr ⟨r, h, hr.symm, by simp [isPrunable, hh]⟩

-- Finishing a reservation again changes nothing.
theorem foldl_finish (os : List (CreditReservation F)) (r : CreditReservation F) :
    os.foldl (fun r o => if id = o.invocationId then r.finish .released else r) r =
      if os.any (·.invocationId = id) then r.finish .released else r := by
  induction os generalizing r
  case nil => rfl
  case cons o os hi =>
    by_cases h : id = o.invocationId
    case pos =>
      rw [List.foldl_cons, if_pos h, hi]
      simp [h, CreditReservation.finish]
    case neg => simp [hi, h, Ne.symm h]

theorem any_orphans (hk : t.Keyed) (h : t.reservations.lookup id = some r) :
    (t.orphans active now).any (·.invocationId = id) = t.isOrphan active now r := by
  rw [Bool.eq_iff_iff, List.any_eq_true]
  simp only [orphans, List.mem_filter, mem_values, decide_eq_true_eq]
  constructor
  · rintro ⟨o, ⟨⟨k, ho⟩, hp⟩, hi⟩
    have hk := hk.reservations ho
    rw [←hk, hi, h, Option.some.injEq] at ho
    rwa [ho]
  · exact fun hp => ⟨r, ⟨⟨id, h⟩, hp⟩, hk.reservations h⟩

theorem foldl_finishReleased (hk : t.Keyed) :
    (t.orphans active now).foldl finishReleased t.reservations =
      (t.reclaim active now).reservations := by
  refine foldl_mapValues.trans ?_
  simp only [reclaim]
  refine mapValues_congr fun id r h => ?_
  rw [foldl_finish, any_orphans hk h]

-- What the janitor publishes is what it saved.
theorem publishJanitor_eq (hk : t.Keyed) :
    t.publishJanitor active now t = (t.reclaim active now).prune now := by
  have hc : (t.orphans active now).foldl
      (fun cards r => cards.copy (t.reclaim active now).cards r.cardId) t.cards =
        (t.reclaim active now).cards :=
    foldl_copy rfl fun _ _ => rfl
  simp only [publishJanitor, hc, foldl_finishReleased hk]
  rfl

-- Reservations after a restart.

-- Whether an entry of the ledger is usage of an invocation that a restart still guards.
def settles (horizon : Nat) (id : String) (e : LedgerEntry F) : Bool :=
  e.isUsageOf id && horizon ≤ e.tsSecs

theorem lookup_recordSettled {horizon : Nat} {rs : Table String (CreditReservation F)}
    {e : LedgerEntry F} : (recordSettled horizon rs e).lookup id =
      (rs.lookup id).or (if settles horizon id e then some (.ofEntry id e) else none) := by
  unfold recordSettled
  split
  case h_2 hn => simp [settles, LedgerEntry.isUsageOf, hn]
  case h_1 id' hi =>
    split
    case isTrue h =>
      rw [lookup_orInsert]
      by_cases he : id = id'
      case pos =>
        subst he
        cases hl : rs.lookup id <;> simp [settles, LedgerEntry.isUsageOf, hi, h]
      case neg => simp [settles, LedgerEntry.isUsageOf, hi, he, Ne.symm he]
    case isFalse h =>
      have : settles horizon id e = false := by
        simp only [settles, LedgerEntry.isUsageOf, Bool.and_eq_false_iff, decide_eq_false_iff_not]
        tauto
      simp [this]

theorem lookup_foldl_recordSettled {horizon : Nat} {rs : Table String (CreditReservation F)}
    {es : List (LedgerEntry F)} : (es.foldl (recordSettled horizon) rs).lookup id =
      (rs.lookup id).or ((es.find? (settles horizon id)).map (.ofEntry id)) := by
  induction es generalizing rs
  case nil => simp
  case cons e es hi =>
    rw [List.foldl_cons, hi, lookup_recordSettled]
    cases rs.lookup id <;> by_cases h : settles horizon id e <;> simp [h]

-- A restart keeps what isn't held, and what is held with a settlement pending. It adds records of what
-- the ledger says was settled.
theorem lookup_recovered : t.recoveredReservations.lookup id = some r ↔
    (t.reservations.lookup id).or ((t.ledger.find? (settles t.horizon id)).map (.ofEntry id)) =
      some r ∧ (r.state = .held → id ∈ t.pendingSettlements) := by
  rw [recoveredReservations, lookup_retain, lookup_foldl_recordSettled]
  simp [imp_iff_not_or]

theorem lookup_recovered_of (h : t.reservations.lookup id = some r)
    (hp : r.state = .held → id ∈ t.pendingSettlements) :
    t.recoveredReservations.lookup id = some r :=
  lookup_recovered.mpr ⟨by simp [h], hp⟩

theorem lookup_recovered_cases (h : t.recoveredReservations.lookup id = some r) :
    (t.reservations.lookup id = some r ∧ (r.state = .held → id ∈ t.pendingSettlements)) ∨
    (t.reservations.lookup id = none ∧ ∃ e ∈ t.ledger, e.isUsageOf id ∧ r = .ofEntry id e) := by
  have ⟨h, hp⟩ := lookup_recovered.mp h
  cases hl : t.reservations.lookup id
  case some old =>
    rw [hl, Option.some_or] at h
    exact .inl ⟨h, hp⟩
  case none =>
    simp only [hl, Option.none_or, Option.map_eq_some_iff] at h
    have ⟨e, he, hr⟩ := h
    have hs := List.find?_some he
    simp only [settles, Bool.and_eq_true] at hs
    exact .inr ⟨rfl, e, List.mem_of_find?_eq_some he, hs.left, hr.symm⟩

end Tables

end Billing
