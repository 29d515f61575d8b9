import Superkiro.Billing.CardLife

namespace Billing

open F64 Except Host AList

namespace RefreshFamily

variable {f f' : RefreshFamily} {p : Nat}

-- What may become of a family.
inductive Next (f : RefreshFamily) : RefreshFamily → Prop
  | kept    : Next f f
  | renewed : Next f f.renewed
  | rotated : Next f (f.rotated now)

-- No token of some version is the current one, nor a retry of the rotation that replaced it.
structure Stale (p : Nat) (f : RefreshFamily) : Prop where
  behind : p < f.version
  ended  : p + 1 = f.version → f.rotatedAt = none

theorem Next.version_le (h : Next f f') (hb : f.version ≤ u64Max) :
    f.version ≤ f'.version ∧ f'.version ≤ u64Max := by
  have hr : f.version ≤ f.renewed.version ∧ f.renewed.version ≤ u64Max := by
    have : 1 ≤ u64Max := by decide
    simp only [RefreshFamily.renewed, satAddU64]
    omega
  cases h
  case kept => exact ⟨le_refl _, hb⟩
  case renewed | rotated => exact hr

theorem renewed_version (h : f.renewed.version < u64Max) : f.renewed.version = f.version + 1 := by
  simp only [renewed, satAddU64] at h ⊢
  omega

theorem rotated_version (h : f.version < u64Max) : (f.rotated now).version = f.version + 1 := by
  simp only [rotated, satAddU64]
  omega

-- A sign-in ends what was issued before.
theorem stale_renewed (hp : p ≤ f.version) (h : f.renewed.version < u64Max) : Stale p f.renewed where
  behind  := by
    rw [renewed_version h]
    omega
  ended _ := rfl

theorem Stale.next (hs : Stale p f) (h : Next f f') (hm : f'.version < u64Max) : Stale p f' := by
  cases h
  case kept => exact hs
  case renewed => exact stale_renewed (Nat.le_of_lt hs.behind) hm
  case rotated now =>
    have hv : (f.rotated now).version = f.version + 1 := renewed_version hm
    have := hs.behind
    exact ⟨by omega, by omega⟩

end RefreshFamily

section

variable {t : Tables F} {op : Op F}

namespace Tables

theorem isRetry_iff {c : Card} (hm : c.refreshVersion < u64Max) :
    isRetry c presented now grace ↔ presented + 1 = c.refreshVersion ∧
      ∃ rotated, c.refreshRotatedAt = some rotated ∧ now - rotated < grace := by
  have hs : satAddU64 presented 1 = c.refreshVersion ↔ presented + 1 = c.refreshVersion := by
    simp only [satAddU64]
    omega
  simp only [isRetry, hs, Bool.and_eq_true, decide_eq_true_eq, Option.any_eq_true]

-- A rotation is of the current version, and a retry is answered without a change.
theorem rotateRefresh_eq_ok {txn : Txn F RefreshRotation}
    (h : t.rotateRefresh cardId presented jti expires now grace = .ok txn) :
    ∃ c, t.cards.lookup cardId = some c ∧
      ((presented = c.refreshVersion ∧ ∃ pub,
        txn = .write ((t.withTokens (t.unexpiredTokens now)).putCard cardId (c.withRotation now)) pub
          (.rotated (c.withRotation now).refreshVersion)) ∨
      (presented ≠ c.refreshVersion ∧ isRetry c presented now grace ∧
        txn = .answer (.reissued c.refreshVersion))) := by
  simp only [Tables.rotateRefresh, bind_eq_ok', exists_unit, ensure_eq_ok, pure_eq_ok,
    getCard_eq_ok] at h
  obtain ⟨_, _, c, hc, hr, h⟩ := h
  refine ⟨c, hc, ?_⟩
  split at h
  case isTrue hp => exact .inl ⟨hp, _, h.symm⟩
  case isFalse hp =>
    simp only [hp, decide_false, Bool.false_or] at hr
    exact .inr ⟨hp, hr, h.symm⟩

-- A sign-in returns the card it commits, with a new family.
theorem activateCardWithDevice_eq_ok {txn : Txn F Card}
    (h : t.activateCardWithDevice cardId now duration device = .ok txn) :
    ∃ old c, t.cards.lookup cardId = some old ∧ c.family = old.family.renewed ∧
      txn = t.replaceCard cardId c c := by
  simp only [Tables.activateCardWithDevice, bind_eq_ok', pure_eq_ok, getCard_eq_ok,
    liftCard_eq_ok] at h
  obtain ⟨card, hc, card₁, ha, card₂, hb, h⟩ := h
  obtain ⟨_, _, hs⟩ := Card.activate_same ha
  have hf := (hs.trans (Card.bindGiven_same hb)).family
  refine ⟨card, card₂.withNewFamily, hc, ?_, h.symm⟩
  rw [←hf]
  rfl

end Tables

namespace Engine

variable [F64 F] [Host F] {e : Engine F} {io : Io} {old new : Card} {k : String}

-- An operation leaves the refresh tokens of a card alone, unless it says what becomes of them.
theorem exec_family (io : Io) (hk : e.tables.Keyed) (hop : op ≠ .reload)
    (ho : e.tables.cards.lookup k = some old)
    (hn : (e.exec io op).tables.cards.lookup k = some new) :
    new.family = old.family ∨ ((∃ turns, op.Turns k turns) ∧ op.Refreshes old.family new.family) := by
  have ⟨⟨cs, hr, hm⟩, _⟩ := exec_effect (e := e) io op (by rwa [source_eq hop])
  rw [source_eq hop] at hr hm
  let P (t : Tables F) := t.Keyed ∧ ∃ c, t.cards.lookup k = some c ∧ (c.family = old.family ∨
    ((∃ turns, op.Turns k turns) ∧ op.Refreshes old.family c.family))
  have hp : P (e.exec io op).tables := by
    refine hr.preserves_mem (I := P) ?_ ⟨hk, old, ho, .inl rfl⟩
    intro t c t' hc ⟨hk, card, hcard, hf⟩ hs
    have ⟨card', hcard', hmakes⟩ := hs.card hk hcard
    refine ⟨hs.keyed hk, card', hcard', ?_⟩
    rcases hmakes.family hcard with he | ⟨turns, he⟩
    · rwa [he]
    · subst he
      cases hm _ hc
      case replace ho' ht hr =>
        rw [ho, Option.some.injEq] at ho'
        exact .inr ⟨⟨_, ht⟩, ho' ▸ hr⟩
  have ⟨_, c, hc, h⟩ := hp
  rw [hn, Option.some.injEq] at hc
  exact hc ▸ h

theorem exec_family_next (io : Io) (hk : e.tables.Keyed) (hop : op ≠ .reload)
    (ho : e.tables.cards.lookup k = some old)
    (hn : (e.exec io op).tables.cards.lookup k = some new) :
    RefreshFamily.Next old.family new.family := by
  rcases exec_family io hk hop ho hn with h | ⟨_, h⟩
  · exact h ▸ .kept
  · cases op
    case activateCardWithDevice => exact (show new.family = _ from h) ▸ .renewed
    case rotateRefresh => exact (show new.family = _ from h.right) ▸ .rotated
    all_goals exact (show new.family = _ from h) ▸ .kept

omit [F64 F] in
-- A sign-in that succeeds starts a new family, and returns the card with it.
theorem activateCardWithDevice_family
    (h : (e.activateCardWithDevice io k now duration device).1 = .ok card) :
    ∃ old, e.tables.cards.lookup k = some old ∧
      (e.activateCardWithDevice io k now duration device).2.tables.cards.lookup k = some card ∧
      card.family = old.family.renewed := by
  rw [activateCardWithDevice] at h ⊢
  have hp : Publishes e.tables (e.tables.activateCardWithDevice k now duration device) := by
    intro c pub a ht
    have ⟨_, _, _, _, ht⟩ := Tables.activateCardWithDevice_eq_ok ht
    cases ht
    rfl
  rcases transact_eq_ok hp (Prod.ext h rfl) with ⟨ht, _⟩ | ⟨c, pub, ht, hc⟩
  · have ⟨_, _, _, _, ht⟩ := Tables.activateCardWithDevice_eq_ok ht
    cases ht
  · have ⟨old, card', hf, hfam, ht⟩ := Tables.activateCardWithDevice_eq_ok ht
    cases ht
    rw [hc.tables_eq rfl]
    exact ⟨old, hf, lookup_insert _, hfam⟩

theorem activateCardWithDevice_failed
    (h : ¬(e.outcome io (.activateCardWithDevice k now duration device)).isOk) :
    (e.exec io (.activateCardWithDevice k now duration device)).tables = e.tables := by
  simp only [outcome, exec, activateCardWithDevice] at h ⊢
  exact transact_failed (Commits.of_replace activateCardWithDevice_replaces).publishes
    (by simpa only [isOk_map] using h)

theorem rotateRefresh_failed
    (h : ¬(e.outcome io (.rotateRefresh k presented jti expires now grace)).isOk) :
    (e.exec io (.rotateRefresh k presented jti expires now grace)).tables = e.tables := by
  simp only [outcome, exec, rotateRefresh] at h ⊢
  exact transact_failed rotateRefresh_commits.publishes h

-- What the answer to a refresh says of its card.
inductive Refreshed (e : Engine F) (k : String) (presented now grace : Nat) (c : Card) :
    RefreshRotation → Engine F → Prop
  | rotated {c' : Card} {e' : Engine F} :
    presented = c.refreshVersion → e'.tables.cards.lookup k = some c' →
    c'.family = c.family.rotated now →
    Refreshed e k presented now grace c (.rotated c'.refreshVersion) e'
  | reissued : presented ≠ c.refreshVersion → Tables.isRetry c presented now grace →
    Refreshed e k presented now grace c (.reissued c.refreshVersion) e

theorem rotateRefresh_cases (h : (e.rotateRefresh io k presented jti expires now grace).1 = .ok r)
    (ho : e.tables.cards.lookup k = some old) :
    Refreshed e k presented now grace old r
      (e.rotateRefresh io k presented jti expires now grace).2 := by
  rw [rotateRefresh] at h ⊢
  generalize ht : e.transact io _ = res at h ⊢
  obtain ⟨r', e'⟩ := res
  cases h
  rcases transact_eq_ok rotateRefresh_commits.publishes ht with ⟨ha, he⟩ | ⟨_, _, hw, hc⟩
  case inl =>
    have ⟨card, hf, hr⟩ := Tables.rotateRefresh_eq_ok ha
    rw [ho, Option.some.injEq] at hf
    subst hf he
    rcases hr with ⟨_, _, ha⟩ | ⟨hp, hr, ha⟩
    · cases ha
    · cases ha
      exact .reissued hp hr
  case inr =>
    have ⟨card, hf, hr⟩ := Tables.rotateRefresh_eq_ok hw
    rw [ho, Option.some.injEq] at hf
    subst hf
    rcases hr with ⟨hp, _, hw⟩ | ⟨_, _, hw⟩
    · cases hw
      have hn : e'.tables.cards.lookup k = some (old.withRotation now) := by
        rw [hc.tables_eq rfl]
        exact lookup_insert _
      exact .rotated hp hn rfl
    · cases hw

-- Whether a refresh was answered by a rotation.
def rotates : Result RefreshRotation → Bool
  | .ok (.rotated _) => true
  | _                => false

-- When the family of a card was last rotated, if that was since it last signed in.
def rotatedAfter (k : String) (e : Engine F) (l : Label F) (s : Option Nat) : Option Nat :=
  match l.op with
  | .activateCardWithDevice cardId .. =>
    if cardId = k ∧ (e.outcome l.io l.op).isOk then none else s
  | .rotateRefresh cardId presented jti expires now grace =>
    if cardId = k ∧ rotates (e.rotateRefresh l.io cardId presented jti expires now grace).1 then
      some now
    else s
  | _ => s

def rotatedAt (k : String) (e : Engine F) : List (Label F) → Option Nat → Option Nat
  | [], s      => s
  | l :: ls, s => rotatedAt k (e.exec l.io l.op) ls (rotatedAfter k e l s)

theorem rotatedAfter_eq (hk : e.tables.Keyed) (hop : l.op ≠ .reload)
    (ho : e.tables.cards.lookup k = some old)
    (hn : (e.exec l.io l.op).tables.cards.lookup k = some new) :
    new.refreshRotatedAt = rotatedAfter k e l old.refreshRotatedAt := by
  have hf := exec_family l.io hk hop ho hn
  have hsame (h : (e.exec l.io l.op).tables = e.tables) :
      new.refreshRotatedAt = old.refreshRotatedAt := by
    rw [h, ho, Option.some.injEq] at hn
    rw [hn]
  have hkept (h : new.family = old.family) : new.refreshRotatedAt = old.refreshRotatedAt :=
    congrArg RefreshFamily.rotatedAt h
  obtain ⟨op, io⟩ := l
  cases op
  case activateCardWithDevice cardId now duration device =>
    simp only [rotatedAfter]
    split
    case isTrue h =>
      obtain ⟨hk, hok⟩ := h
      subst hk
      simp only [outcome, isOk_map] at hok
      obtain ⟨card, hok⟩ := hok
      obtain ⟨_, ho', hn', hfam⟩ := activateCardWithDevice_family hok
      simp only [exec] at hn
      rw [ho, Option.some.injEq] at ho'
      rw [hn, Option.some.injEq] at hn'
      subst ho'
      rw [hn']
      exact congrArg RefreshFamily.rotatedAt hfam
    case isFalse h =>
      by_cases hk : cardId = k
      case pos =>
        subst hk
        exact hsame (activateCardWithDevice_failed fun hok => h ⟨rfl, hok⟩)
      case neg =>
        rcases hf with hf | ⟨⟨_, ht, _⟩, _⟩
        · exact hkept hf
        · exact absurd ht.symm hk
  case rotateRefresh cardId presented jti expires now grace =>
    simp only [rotatedAfter]
    by_cases hk : cardId = k
    case pos =>
      subst hk
      cases hr : (e.rotateRefresh io cardId presented jti expires now grace).1
      case error =>
        rw [if_neg fun h => Bool.false_ne_true h.right]
        refine hsame (rotateRefresh_failed fun hok => ?_)
        simp [outcome, hr, Except.map, Except.isOk, Except.toBool] at hok
      case ok r =>
        have h := rotateRefresh_cases hr ho
        simp only [exec] at hn
        generalize (e.rotateRefresh io cardId presented jti expires now grace).2 = e' at h hn
        cases h
        case rotated hp hfam hn' =>
          rw [hn, Option.some.injEq] at hn'
          rw [if_pos ⟨rfl, rfl⟩, hn']
          exact congrArg RefreshFamily.rotatedAt hfam
        case reissued =>
          rw [ho, Option.some.injEq] at hn
          rw [if_neg fun h => Bool.false_ne_true h.right, hn]
    case neg =>
      rw [if_neg fun h => hk h.left]
      rcases hf with hf | ⟨⟨_, ht, _⟩, _⟩
      · exact hkept hf
      · exact absurd ht.symm hk
  all_goals exact hkept (hf.elim id And.right)

-- In every run, the family of a card says when it was last rotated.
theorem execAll_rotatedAt {ls : List (Label F)} (hk : e.tables.Keyed)
    (hl : ∀ l ∈ ls, l.op ≠ .reload) (ho : e.tables.cards.lookup k = some old)
    (hn : (e.execAll ls).tables.cards.lookup k = some new) :
    new.refreshRotatedAt = rotatedAt k e ls old.refreshRotatedAt := by
  induction ls generalizing e old
  case nil =>
    rw [execAll, ho, Option.some.injEq] at hn
    rw [rotatedAt, hn]
  case cons l ls hi =>
    have hop := hl l (.head _)
    have ⟨_, c, hc, _⟩ := exec_turned l.io hk hop ho
    rw [rotatedAt, ←rotatedAfter_eq hk hop ho hc]
    exact hi (exec_keyed l.io hk hop) (fun l hm => hl l (.tail _ hm)) hc hn

theorem execAll_append (e : Engine F) (ls ls' : List (Label F)) :
    e.execAll (ls ++ ls') = (e.execAll ls).execAll ls' := by
  induction ls generalizing e
  case nil => rfl
  case cons l ls hi => exact hi _

-- An engine with a card whose status is sound and whose versions are in bounds.
structure Live (k : String) (e : Engine F) (c : Card) : Prop where
  keyed   : e.tables.Keyed
  found   : e.tables.cards.lookup k = some c
  sound   : c.lifecycle.Sound
  bounded : c.refreshVersion ≤ u64Max

-- What may become of such a card.
structure Moves (old new : Card) : Prop where
  sessions : old.tokenVersion ≤ new.tokenVersion
  family   : RefreshFamily.Next old.family new.family

theorem Live.exec (h : Live k e old) (io : Io) (hop : op ≠ .reload) :
    ∃ new, Live k (e.exec io op) new ∧ Moves old new := by
  have ⟨new, hn, hs, _⟩ := exec_sound (l := ⟨op, io⟩) h.keyed hop h.found h.sound
  have ⟨_, hn', hfollows⟩ := exec_follows (l := ⟨op, io⟩) h.keyed hop h.found h.sound
  have hf := exec_family_next io h.keyed hop h.found hn
  rw [hn, Option.some.injEq] at hn'
  refine ⟨new, ⟨exec_keyed io h.keyed hop, hn, hs, (hf.version_le h.bounded).right⟩, ?_, hf⟩
  exact hn' ▸ hfollows.sessions

theorem Moves.refl : Moves old old := ⟨le_refl _, .kept⟩

omit [F64 F] in
-- A refresh that is of no current version and no retry changes nothing.
theorem rotateRefresh_refused (io : Io) (jti : String) (expires : Nat)
    (ho : e.tables.cards.lookup k = some old) (hne : presented ≠ old.refreshVersion) (hr : ¬Tables.isRetry old presented now grace) :
    ∃ err, e.rotateRefresh io k presented jti expires now grace = (.error err, e) := by
  rw [rotateRefresh]
  cases ht : e.tables.rotateRefresh k presented jti expires now grace
  case error err => exact ⟨err, rfl⟩
  case ok txn =>
    have ⟨c, hc, h⟩ := Tables.rotateRefresh_eq_ok ht
    rw [ho, Option.some.injEq] at hc
    subst hc
    rcases h with ⟨h, _⟩ | ⟨_, h, _⟩
    · exact absurd h hne
    · exact absurd h hr

theorem not_isRetry_of_lt (now grace : Nat) (h : presented + 1 < old.refreshVersion) :
    presented ≠ old.refreshVersion ∧ ¬Tables.isRetry old presented now grace := by
  have hs : satAddU64 presented 1 ≤ presented + 1 := Nat.min_le_left _ _
  simp only [Tables.isRetry, Bool.and_eq_true, decide_eq_true_eq, not_and]
  exact ⟨by omega, by omega⟩

theorem not_isRetry_of_stale (now grace : Nat)
    (h : RefreshFamily.Stale presented old.family) (hm : old.refreshVersion < u64Max) :
    presented ≠ old.refreshVersion ∧ ¬Tables.isRetry old presented now grace := by
  refine ⟨Nat.ne_of_lt h.behind, fun hr => ?_⟩
  have ⟨hp, _, hat, _⟩ := (Tables.isRetry_iff hm).mp hr
  have hn : old.refreshRotatedAt = none := h.ended hp
  rw [hn] at hat
  cases hat

end Engine
end
end Billing
