import Superkiro.Billing.Holds
import Superkiro.Billing.Idempotency

namespace Billing

open F64 Except Host AList

-- A code that a card used up.
def TopupCode.redeemed (c : TopupCode) (cardId : String) (now : Nat) : TopupCode :=
  { c with isUsed := true, usedByCardId := some cardId, usedAt := some now }

namespace Tables

-- The code a redemption uses, and the key it's kept under.
def openCode (t : Tables F) (hash : String → String) (code : String) :
    Option (Σ _ : String, TopupCode) :=
  t.topupCodes.entries.find? fun e => e.2.codeHash = hash code && !e.2.isUsed

-- What a redemption makes of the tables.
def redeem (t : Tables F) (k : String) (c : TopupCode) (cardId : String) (card : Card) (now : Nat)
    (operator : String) : Tables F :=
  let used := c.redeemed cardId now
  t.withTopup k used cardId (toppedUp used card now) (topupEntry used cardId operator now)

-- What a renewal makes of the tables.
def renew (t : Tables F) (source : Card) (cardId : String) (target : Card) (total : I64)
    (now : Nat) : Tables F :=
  t.withRenewal cardId (target.renewed total now) source.consumed
    [renewalEntry source cardId now, renewalDebit source cardId now]

-- What a renewal asks of the card it consumes and the card it renews.
structure Renewable (t : Tables F) (hash : String → String) (cardId code : String)
    (source target : Card) (total : I64) : Prop where
  found     : t.cards.values.find? (·.codeHash = hash (Text.trim code)) = some source
  other     : source.id ≠ cardId
  untouched : isUntouched source
  worth     : 0 < source.creditTotal
  card      : t.cards.lookup cardId = some target
  total     : total.val = target.creditTotal.val + source.creditTotal.val

section

variable {t : Tables F} {hash : String → String} {cardId code operator k : String} {now : Nat}
variable {c : TopupCode} {source target card : Card} {total : I64}

theorem openCode_spec (h : t.openCode hash code = some ⟨k, c⟩) :
    t.topupCodes.lookup k = some c ∧ c.isUsed = false ∧ c.codeHash = hash code := by
  have hs := List.find?_some h
  simp only [Bool.and_eq_true, Bool.not_eq_true', decide_eq_true_eq] at hs
  exact ⟨mem_entries_iff.mp (List.mem_of_find?_eq_some h), hs.right, hs.left⟩

theorem redeemTopup_writes {txn : Txn F (LedgerEntry F)}
    (h : t.redeemTopup hash cardId code now operator = .ok txn) :
    ∃ k c card pub, t.openCode hash code = some ⟨k, c⟩ ∧ t.cards.lookup cardId = some card ∧
      txn = .write (t.redeem k c cardId card now operator) pub
        (topupEntry (c.redeemed cardId now) cardId operator now) := by
  simp only [redeemTopup, bind_eq_ok', exists_unit, pure_eq_ok, getCard_eq_ok,
    ofOption_eq_ok] at h
  obtain ⟨⟨k, c⟩, hf, card, hc, _, _, h⟩ := h
  exact ⟨k, c, card, _, hf, hc, h.symm⟩

theorem renewWithCard_writes {txn : Txn F (LedgerEntry F)}
    (h : t.renewWithCard hash cardId code now = .ok txn) :
    ∃ source target total pub, t.Renewable hash cardId code source target total ∧
      txn = .write (t.renew source cardId target total now) pub
        (renewalEntry source cardId now) := by
  simp only [renewWithCard, bind_eq_ok', exists_unit, pure_eq_ok, getCard_eq_ok,
    ofOption_eq_ok, ensure_eq_ok, Bool.and_eq_true, decide_eq_true_eq] at h
  obtain ⟨source, hf, ⟨⟨hne, hun⟩, hpos⟩, target, hc, _, total, ht, h⟩ := h
  exact ⟨source, target, total, _, ⟨hf, hne, hun, hpos, hc, I64.checkedAdd_eq_some.mp ht⟩, h.symm⟩

theorem Renewable.source_lookup (h : t.Renewable hash cardId code source target total)
    (hk : t.Keyed) : t.cards.lookup source.id = some source := by
  have ⟨k, hl⟩ := mem_values.mp (List.mem_of_find?_eq_some h.found)
  have hid := hk.cards hl
  exact hid ▸ hl

end

end Tables

namespace Engine

variable [F64 F] [Host F] {e e' : Engine F} {io : Io} {cardId code operator : String} {now : Nat}

-- What a persistent engine has in memory is on disk.
def Persisted (e e' : Engine F) : Prop :=
  e.persistent → ∀ {s}, e'.disk = some s → s.tables = e'.tables

omit [F64 F] in
theorem Committed.persisted {t : Tables F} (h : e.Committed io t e') : e.Persisted e' := by
  intro hp s hs
  rw [h.saved hp, Option.some.injEq] at hs
  exact hs ▸ rfl

-- The ways a redemption ends.
inductive Redemption (e : Engine F) (cardId code : String) (now : Nat) (operator : String) :
    Result (LedgerEntry F) → Engine F → Prop
  | failed {err e'} : e.Unchanged e' → Redemption e cardId code now operator (.error err) e'
  | redeemed {k c card e'} : e.tables.openCode (hashCardCode F) code = some ⟨k, c⟩ →
    e.tables.cards.lookup cardId = some card →
    e'.tables = e.tables.redeem k c cardId card now operator → e.Persisted e' →
    Redemption e cardId code now operator
      (.ok (Tables.topupEntry (c.redeemed cardId now) cardId operator now)) e'

-- The ways a renewal ends.
inductive Renewal (e : Engine F) (cardId code : String) (now : Nat) :
    Result (LedgerEntry F) → Engine F → Prop
  | failed {err e'} : e.Unchanged e' → Renewal e cardId code now (.error err) e'
  | renewed {source target total e'} :
    e.tables.Renewable (hashCardCode F) cardId code source target total →
    e'.tables = e.tables.renew source cardId target total now → e.Persisted e' →
    Renewal e cardId code now (.ok (renewalEntry source cardId now)) e'

theorem redeemTopup_ends (hk : e.tables.Keyed) :
    Redemption e cardId code now operator (e.redeemTopup io cardId code now operator).1
      (e.redeemTopup io cardId code now operator).2 := by
  have h : Transacted e io (e.tables.redeemTopup (hashCardCode F) cardId code now operator) _ _ :=
    transact_cases io (redeemTopup_commits hk).publishes
  rw [redeemTopup]
  generalize ht : e.tables.redeemTopup (hashCardCode F) cardId code now operator = txn at h ⊢
  generalize (e.transact io txn).1 = answer at h ⊢
  generalize (e.transact io txn).2 = e' at h ⊢
  cases h
  case refused => exact .failed ⟨rfl, rfl⟩
  case answered =>
    obtain ⟨_, _, _, _, _, _, hw⟩ := Tables.redeemTopup_writes ht
    cases hw
  case unsaved hu => exact .failed hu
  case committed hc =>
    obtain ⟨k, c, card, _, hf, hl, hw⟩ := Tables.redeemTopup_writes ht
    cases hw
    exact .redeemed hf hl (hc.tables_eq rfl) hc.persisted

theorem renewWithCard_ends (hk : e.tables.Keyed) :
    Renewal e cardId code now (e.renewWithCard io cardId code now).1
      (e.renewWithCard io cardId code now).2 := by
  have h : Transacted e io (e.tables.renewWithCard (hashCardCode F) cardId code now) _ _ :=
    transact_cases io (renewWithCard_commits hk).publishes
  rw [renewWithCard]
  generalize ht : e.tables.renewWithCard (hashCardCode F) cardId code now = txn at h ⊢
  generalize (e.transact io txn).1 = answer at h ⊢
  generalize (e.transact io txn).2 = e' at h ⊢
  cases h
  case refused => exact .failed ⟨rfl, rfl⟩
  case answered =>
    obtain ⟨_, _, _, _, _, hw⟩ := Tables.renewWithCard_writes ht
    cases hw
  case unsaved hu => exact .failed hu
  case committed hc =>
    obtain ⟨source, target, total, _, hr, hw⟩ := Tables.renewWithCard_writes ht
    cases hw
    exact .renewed hr (hc.tables_eq rfl) hc.persisted

end Engine
end Billing
