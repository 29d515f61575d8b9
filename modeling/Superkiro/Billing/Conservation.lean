import Superkiro.Billing.Codes

namespace Billing

open F64 Except Host AList

-- What was given to all cards and not used.
def Tables.left (t : Tables F) : Int :=
  t.cards.total fun _ c => c.creditTotal.val - c.creditUsed.val

namespace Engine

-- A card was renewed with another: that one's credit moved, and it's gone.
structure Renewed (e e' : Engine F) (cardId : String) (entry : LedgerEntry F)
    (source : Card) : Prop where
  entry     : entry.id = "renew-" ++ source.id
  other     : source.id ≠ cardId
  found     : e.tables.cards.lookup source.id = some source
  moved     : ∃ old new, e.tables.cards.lookup cardId = some old ∧
    e'.tables.cards.lookup cardId = some new ∧ new.creditUsed = old.creditUsed ∧
    new.creditTotal.val = old.creditTotal.val + (source.creditTotal.val - source.creditUsed.val)
  consumed  : ∃ new, e'.tables.cards.lookup source.id = some new ∧ new.status = .voided ∧
    new.creditUsed = new.creditTotal
  kept      : ∀ {k}, k ≠ cardId → k ≠ source.id →
    e'.tables.cards.lookup k = e.tables.cards.lookup k
  conserved : e'.tables.left = e.tables.left
  codes     : e'.tables.topupCodes = e.tables.topupCodes

-- A code was redeemed for a card. The card gets its amount, where that's a number of credits a card
-- may have.
structure Redeemed (e e' : Engine F) (cardId : String) (entry : LedgerEntry F)
    (code : TopupCode) : Prop where
  entry : entry.id = "ledger-" ++ code.id
  found : e.tables.topupCodes.lookup code.id = some code
  fresh : code.isUsed = false
  used  : ∃ new, e'.tables.topupCodes.lookup code.id = some new ∧ new.isUsed ∧
    new.usedByCardId = some cardId
  codes : ∀ {k}, k ≠ code.id → e'.tables.topupCodes.lookup k = e.tables.topupCodes.lookup k
  cards : ∀ {k}, k ≠ cardId → e'.tables.cards.lookup k = e.tables.cards.lookup k
  card  : ∃ old new, e.tables.cards.lookup cardId = some old ∧
    e'.tables.cards.lookup cardId = some new ∧ new.creditUsed = old.creditUsed ∧
    (new.creditTotal.val = old.creditTotal.val + code.creditAmount.val ↔
      (old.creditTotal.checkedAdd code.creditAmount).isSome)

end Engine

namespace Tables

variable {t : Tables F} {hash : String → String} {cardId code : String} {source target : Card}
variable {total : I64} {now : Nat}

-- What a renewal gives the one card, it takes from the other.
theorem Renewable.conserved (h : t.Renewable hash cardId code source target total)
    (hk : t.Keyed) : (t.renew source cardId target total now).left = t.left := by
  have hs := h.source_lookup hk
  have hs' : (t.cards.insert cardId (target.renewed total now)).lookup source.id = some source :=
    (lookup_insert_ne h.other).trans hs
  have hu : source.creditUsed.val = 0 := by
    have hun := h.untouched
    simp only [isUntouched, Bool.and_eq_true, decide_eq_true_eq] at hun
    rw [hun.1.1.2, I64.val_zero]
  have ht := h.total
  let f (_ : String) (c : Card) : Int := c.creditTotal.val - c.creditUsed.val
  have h₁ : ((t.cards.insert cardId (target.renewed total now)).insert source.id
      source.consumed).total f = _ := total_replace hs'
  have h₂ : (t.cards.insert cardId (target.renewed total now)).total f = _ := total_replace h.card
  change ((t.cards.insert cardId (target.renewed total now)).insert source.id
    source.consumed).total f = t.cards.total f
  rw [h₁, h₂]
  simp only [f, Card.renewed, Card.consumed]
  omega

end Tables

namespace Engine

variable [F64 F] [Host F] {e e' : Engine F} {io : Io} {cardId code operator : String} {now : Nat}
variable {entry : LedgerEntry F}

theorem renewWithCard_renewed (hk : e.tables.Keyed)
    (h : e.renewWithCard io cardId code now = (.ok entry, e')) :
    (∃ source, Renewed e e' cardId entry source) ∧ e.Persisted e' := by
  have hr : Renewal e cardId code now (e.renewWithCard io cardId code now).1
    (e.renewWithCard io cardId code now).2 := renewWithCard_ends hk
  rw [h] at hr
  cases hr
  case renewed source target total hr ht hp =>
    refine ⟨⟨source, ?_⟩, hp⟩
    have hun := hr.untouched
    simp only [Tables.isUntouched, Bool.and_eq_true, decide_eq_true_eq] at hun
    have htotal := hr.total
    constructor
    case entry => rfl
    case other => exact hr.other
    case found => exact hr.source_lookup hk
    case moved =>
      refine ⟨target, target.renewed total now, hr.card, ?_, rfl, ?_⟩
      · rw [ht]
        exact (lookup_insert_ne hr.other.symm).trans (lookup_insert _)
      · rw [hun.1.1.2, I64.val_zero, Int.sub_zero]
        exact htotal
    case consumed =>
      refine ⟨source.consumed, ?_, rfl, rfl⟩
      rw [ht]
      exact lookup_insert _
    case kept =>
      intro k hc hs
      rw [ht]
      exact (lookup_insert_ne hs).trans (lookup_insert_ne hc)
    case conserved => rw [ht]; exact hr.conserved hk
    case codes => rw [ht]; rfl

theorem redeemTopup_redeemed (hk : e.tables.Keyed)
    (h : e.redeemTopup io cardId code now operator = (.ok entry, e')) :
    (∃ c, Redeemed e e' cardId entry c) ∧ e.Persisted e' := by
  have hr : Redemption e cardId code now operator (e.redeemTopup io cardId code now operator).1
    (e.redeemTopup io cardId code now operator).2 := redeemTopup_ends hk
  rw [h] at hr
  cases hr
  case redeemed k c card hf hl ht hp =>
    have ⟨hc, hu, _⟩ := Tables.openCode_spec hf
    have hid := hk.topupCodes hc
    subst hid
    refine ⟨⟨c, ?_⟩, hp⟩
    constructor
    case entry => rfl
    case found => exact hc
    case fresh => exact hu
    case used =>
      refine ⟨c.redeemed cardId now, ?_, rfl, rfl⟩
      rw [ht]
      exact lookup_insert _
    case codes =>
      intro k hk
      rw [ht]
      exact lookup_insert_ne hk
    case cards =>
      intro k hk
      rw [ht]
      exact lookup_insert_ne hk
    case card =>
      refine ⟨card, Tables.toppedUp (c.redeemed cardId now) card now, hl, ?_, rfl, ?_⟩
      · rw [ht]
        exact lookup_insert _
      · change (card.creditTotal.satAdd c.creditAmount).val = _ ↔ _
        rw [Option.isSome_iff_exists]
        constructor
        · exact fun h => ⟨_, I64.checkedAdd_eq_some.mpr h⟩
        · intro ⟨a, ha⟩
          rw [← I64.checkedAdd_satAdd ha]
          exact I64.checkedAdd_eq_some.mp ha

-- A call that fails changes nothing.
theorem renewWithCard_failed (hk : e.tables.Keyed)
    (h : e.renewWithCard io cardId code now = (.error err, e')) : e.Unchanged e' := by
  have hr : Renewal e cardId code now (e.renewWithCard io cardId code now).1
    (e.renewWithCard io cardId code now).2 := renewWithCard_ends hk
  rw [h] at hr
  cases hr
  case failed hu => exact hu

theorem redeemTopup_failed (hk : e.tables.Keyed)
    (h : e.redeemTopup io cardId code now operator = (.error err, e')) : e.Unchanged e' := by
  have hr : Redemption e cardId code now operator (e.redeemTopup io cardId code now operator).1
    (e.redeemTopup io cardId code now operator).2 := redeemTopup_ends hk
  rw [h] at hr
  cases hr
  case failed hu => exact hu

-- What holds of the tables in memory, and of those on disk where they are kept.
structure Lasting (P : Tables F → Prop) (e : Engine F) : Prop where
  live  : P e.tables
  saved : e.persistent → ∀ {s}, e.disk = some s → P s.tables

theorem Lasting.exec {P : Tables F → Prop} {op : Op F} (hk : ∀ {t}, P t → t.Keyed)
    (hs : ∀ {t c t'}, op.Makes (e.source op) c → P t → Change.Step t c t' → P t') (h : e.Lasting P)
    (hr : e.persistent ∨ op ≠ .reload) : (e.exec io op).Lasting P := by
  have hsrc : P (e.source op) := by
    by_cases hop : op = .reload
    case neg => exact source_eq hop ▸ h.live
    case pos =>
      subst hop
      simp only [source]
      cases hd : e.disk
      case none => exact h.live
      case some s => exact h.saved (hr.resolve_right fun h => h rfl) hd
  obtain ⟨⟨cs, hsteps, hc⟩, hd⟩ := exec_effect io op (hk hsrc)
  have hl := hsteps.preserves_mem (I := P) (fun hm => hs (hc _ hm)) hsrc
  refine ⟨hl, fun hp {s} he => ?_⟩
  rw [exec_persistent] at hp
  cases hd
  case inl hd => exact h.saved hp (hd ▸ he)
  case inr hd =>
    obtain ⟨s', hs', ht, _⟩ := hd
    rw [hs', Option.some.injEq] at he
    rw [← he, ht]
    exact hl

theorem Lasting.run {P : Tables F → Prop} {ls : List (Label F)} (hk : ∀ {t}, P t → t.Keyed)
    (hs : ∀ l ∈ ls, ∀ {t₀ t c t'}, l.op.Makes t₀ c → P t → Change.Step t c t' → P t')
    (run : Run Step e ls e') (hr : e.persistent ∨ ∀ l ∈ ls, l.op ≠ .reload) (h : e.Lasting P) : e'.Lasting P := by
  induction run
  case nil => exact h
  case cons e l e₁ ls e' hl _ hi =>
    subst hl
    have hr' : (e.exec l.io l.op).persistent ∨ ∀ l ∈ ls, l.op ≠ .reload := by
      rw [exec_persistent]
      exact hr.imp_right fun h l hl => h l (.tail _ hl)
    have h₁ : (e.exec l.io l.op).Lasting P :=
      h.exec hk (hs l (.head _)) (hr.imp_right fun h => h l (.head _))
    exact hi (fun l hl => hs l (.tail _ hl)) hr' h₁

end Engine

section

variable [F64 F] [Host F] {t t' : Tables F} {c : Change F} {k : String}

-- A card that's voided stays so.
structure Tables.Voids (k : String) (t : Tables F) : Prop where
  keyed : t.Keyed
  card  : ∃ c, t.cards.lookup k = some c ∧ c.status = .voided

-- A code that's used stays so.
structure Tables.Spends (k : String) (t : Tables F) : Prop where
  keyed : t.Keyed
  code  : ∀ {c}, t.topupCodes.lookup k = some c → c.isUsed

theorem Change.Step.voids (h : Step t c t') (hv : t.Voids k) : t'.Voids k := by
  have ⟨hk, old, ho, hs⟩ := hv
  have ⟨new, hn, ht⟩ := h.turned hk ho
  exact ⟨h.keyed hk, new, hn, Lifecycle.turns_preserves (P := (·.status = .voided)) ht.lifecycle hs
    fun _ h ht => Lifecycle.turn_voided h ht⟩

theorem Change.Step.spends (h : Step t c t') (hs : t.Spends k) : t'.Spends k := by
  refine ⟨h.keyed hs.keyed, fun hc => ?_⟩
  cases h
  case use h =>
    have ⟨old, ho, _, _, hu⟩ := h hc
    have hu' := hs.code ho
    rw [hu hu']
    exact hu'
  case publish h =>
    rw [h.configured] at hc
    exact hs.code hc
  all_goals exact hs.code hc

namespace Engine

variable {e e₁ e₂ e' : Engine F} {entry entry' : LedgerEntry F} {ls : List (Label F)}

-- What was renewed with one card is never renewed with it again.
theorem renewed_once (hk : e.tables.Keyed) (h : e.renewWithCard io cardId code now = (.ok entry, e₁))
    (run : Run Step e₁ ls e₂) (hr : e.persistent ∨ ∀ l ∈ ls, l.op ≠ .reload)
    (h' : e₂.renewWithCard io' cardId' code' now' = (.ok entry', e')) : entry'.id ≠ entry.id := by
  obtain ⟨⟨source, hs⟩, hp⟩ := renewWithCard_renewed hk h
  have hk₁ : e₁.tables.Keyed := by
    have : (e.exec io (.renewWithCard cardId code now)).tables.Keyed := exec_keyed io hk (by simp)
    rwa [exec, h] at this
  have hper : e₁.persistent = e.persistent := by
    have : (e.exec io (.renewWithCard cardId code now)).persistent = e.persistent := exec_persistent
    rwa [exec, h] at this
  have hv : e₁.tables.Voids source.id := by
    obtain ⟨c, hc, hv, _⟩ := hs.consumed
    exact ⟨hk₁, c, hc, hv⟩
  have hl : e₁.Lasting (Tables.Voids source.id) :=
    ⟨hv, fun hper' {s} hd => by rw [hp (hper ▸ hper') hd]; exact hv⟩
  have hv₂ := (hl.run (·.keyed) (fun _ _ => fun _ h hs => hs.voids h) run (hper ▸ hr)).live
  have hend : Renewal e₂ cardId' code' now' (e₂.renewWithCard io' cardId' code' now').1
    (e₂.renewWithCard io' cardId' code' now').2 := renewWithCard_ends hv₂.keyed
  rw [h'] at hend
  cases hend
  case renewed source' _ _ hr' _ _ =>
    intro he
    rw [hs.entry] at he
    have hid : source'.id = source.id := Text.append_right_injective he
    obtain ⟨c, hc, hvoid⟩ := hv₂.card
    have hf := hr'.source_lookup hv₂.keyed
    rw [hid, hc, Option.some.injEq] at hf
    have hun := hr'.untouched
    simp only [Tables.isUntouched, Bool.and_eq_true, decide_eq_true_eq] at hun
    rw [hf, hun.1.1.1.1.1] at hvoid
    cases hvoid

-- A code that was redeemed is never redeemed again.
theorem redeemed_once (hk : e.tables.Keyed)
    (h : e.redeemTopup io cardId code now operator = (.ok entry, e₁))
    (run : Run Step e₁ ls e₂) (hr : e.persistent ∨ ∀ l ∈ ls, l.op ≠ .reload)
    (h' : e₂.redeemTopup io' cardId' code' now' operator' = (.ok entry', e')) :
    entry'.id ≠ entry.id := by
  obtain ⟨⟨c, hs⟩, hp⟩ := redeemTopup_redeemed hk h
  have hk₁ : e₁.tables.Keyed := by
    have : (e.exec io (.redeemTopup cardId code now operator)).tables.Keyed := exec_keyed io hk (by simp)
    rwa [exec, h] at this
  have hper : e₁.persistent = e.persistent := by
    have : (e.exec io (.redeemTopup cardId code now operator)).persistent = e.persistent :=
      exec_persistent
    rwa [exec, h] at this
  have hv : e₁.tables.Spends c.id := by
    obtain ⟨new, hn, hu, _⟩ := hs.used
    refine ⟨hk₁, fun hc => ?_⟩
    rw [hn, Option.some.injEq] at hc
    exact hc ▸ hu
  have hl : e₁.Lasting (Tables.Spends c.id) :=
    ⟨hv, fun hper' {s} hd => by rw [hp (hper ▸ hper') hd]; exact hv⟩
  have hv₂ := (hl.run (·.keyed) (fun _ _ => fun _ h hs => hs.spends h) run (hper ▸ hr)).live
  obtain ⟨⟨c', hs'⟩, _⟩ := redeemTopup_redeemed hv₂.keyed h'
  intro he
  rw [hs.entry, hs'.entry] at he
  have hid : c'.id = c.id := Text.append_right_injective he
  have hu := hv₂.code (hid ▸ hs'.found)
  rw [hs'.fresh] at hu
  cases hu

-- What renewals and redemptions do, whatever happened before.
structure SpendsOnce (e : Engine F) : Prop where
  renews   : ∀ {io cardId code now entry e'},
    e.renewWithCard io cardId code now = (.ok entry, e') → ∃ source, Renewed e e' cardId entry source
  redeems  : ∀ {io cardId code now operator entry e'},
    e.redeemTopup io cardId code now operator = (.ok entry, e') → ∃ c, Redeemed e e' cardId entry c
  refuses  : (∀ {io cardId code now err e'},
      e.renewWithCard io cardId code now = (.error err, e') → e.Unchanged e') ∧
    ∀ {io cardId code now operator err e'},
      e.redeemTopup io cardId code now operator = (.error err, e') → e.Unchanged e'
  consumes : ∀ {io cardId code now entry e₁ ls e₂ io' cardId' code' now' entry' e'},
    e.renewWithCard io cardId code now = (.ok entry, e₁) → Run Step e₁ ls e₂ →
    (e.persistent ∨ ∀ l ∈ ls, l.op ≠ .reload) →
    e₂.renewWithCard io' cardId' code' now' = (.ok entry', e') → entry'.id ≠ entry.id
  spends   : ∀ {io cardId code now operator entry e₁ ls e₂ io' cardId' code' now' operator' entry' e'},
    e.redeemTopup io cardId code now operator = (.ok entry, e₁) → Run Step e₁ ls e₂ →
    (e.persistent ∨ ∀ l ∈ ls, l.op ≠ .reload) →
    e₂.redeemTopup io' cardId' code' now' operator' = (.ok entry', e') → entry'.id ≠ entry.id

end Engine

end

-- An engine with a card that's used, one that isn't, and a code of five hundred credits.
def Engine.renewable : Engine ℚ where
  tables := {
    settings   := .default
    cards      := ((∅ : Table String Card).insert "card-1" .sample).insert "card-2"
      { Card.new "card-2" "default" 50000000 with codeHash := "hash:card-2" }
    topupCodes := (∅ : Table String TopupCode).insert "code-1" {
      id := "code-1", codeHash := "hash:code", creditAmount := .sat 500000000,
      durationExtensionSecs := 0, createdAt := 0 } }

theorem lookup_renewable {k : String} {c : Card}
    (h : Engine.renewable.tables.cards.lookup k = some c) : (k = "card-1" ∧ c = .sample) ∨
      (k = "card-2" ∧ c = { Card.new "card-2" "default" 50000000 with codeHash := "hash:card-2" }) := by
  cases lookup_insert_iff.mp h
  case inl h => exact .inr ⟨h.left, h.right.symm⟩
  case inr h =>
    cases lookup_insert_iff.mp h.right
    case inl h => exact .inl ⟨h.left, h.right.symm⟩
    case inr h => simp at h

theorem renewable_started : Engine.renewable.Started where
  fresh := {
    keyed        := ⟨fun k c h => by rcases lookup_renewable h with ⟨rfl, rfl⟩ | ⟨rfl, rfl⟩ <;> rfl,
      fun k c h => by simp [Engine.renewable] at h, fun k c h => by
        cases lookup_insert_iff.mp h
        case inl h => rw [← h.right, h.left]
        case inr h => simp at h⟩
    unused h     := by rcases lookup_renewable h with ⟨-, rfl⟩ | ⟨-, rfl⟩ <;> rfl
    unreserved h := by rcases lookup_renewable h with ⟨-, rfl⟩ | ⟨-, rfl⟩ <;> rfl
    issued h     := by rcases lookup_renewable h with ⟨-, rfl⟩ | ⟨-, rfl⟩ <;> rfl
    nonneg h     := by rcases lookup_renewable h with ⟨-, rfl⟩ | ⟨-, rfl⟩ <;> decide
    reservations := rfl
    pending      := rfl
    ledger       := rfl
    receipts     := rfl
    archives     := rfl
    archived     := rfl
    adjustments  := rfl
    invocations  := rfl
  }
  saved h := by simp [Engine.renewable] at h
  same h  := by simp [Engine.renewable] at h

def BalanceAdjustment.most : BalanceAdjustment where
  cardId            := "card-1"
  deltaMicroCredits := .maxValue
  operatorId        := "admin"
  reason            := "gift"
  nowSecs           := 10

end Billing
