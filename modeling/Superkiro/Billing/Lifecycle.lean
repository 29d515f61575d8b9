import Superkiro.Billing.Card

namespace Billing

-- What a card's status is made of: the status, the one that an unfreeze restores, when the card was
-- activated, and how often its sessions were ended.
structure Lifecycle where
  status       : CardStatus
  frozenFrom   : Option CardStatus
  activatedAt  : Option Nat
  tokenVersion : Nat
  deriving DecidableEq

-- What can happen to a card's status.
inductive Turn
  | revoke
  | freeze
  | unfreeze
  | ban
  | unban
  | void
  | consume
  | wake
  | revive
  | activate (now : Nat)
  deriving DecidableEq

-- Whether a card with some status isn't suspended and isn't gone.
def CardStatus.isOpen (s : CardStatus) : Bool := s = .unactivated || s = .active || s = .expired

-- A status when validity is extended.
def CardStatus.woken (s : CardStatus) : CardStatus := if s = .expired then .active else s

-- Turns that end a card's sessions.
def Turn.endsSessions : Turn → Bool
  | .revoke | .freeze | .ban | .void => true
  | _                                => false

namespace Lifecycle

variable (l : Lifecycle)

def revoked : Lifecycle := { l with tokenVersion := satAddU64 l.tokenVersion 1 }

-- The status from whether a card was ever activated.
def unsuspended : CardStatus := if l.activatedAt.isSome then .active else .unactivated

-- The status an unfreeze restores.
def origin : CardStatus := l.frozenFrom.getD l.unsuspended

def turn (l : Lifecycle) : Turn → Option Lifecycle
  | .revoke   => some l.revoked
  | .freeze   =>
    if l.status.isOpen then some { l.revoked with status := .frozen, frozenFrom := some l.status }
    else none
  | .unfreeze =>
    if l.status = .frozen ∧ l.origin.isOpen then
      some { l with status := l.origin, frozenFrom := none }
    else none
  | .ban      => if l.status = .voided then none else some { l.revoked with status := .banned }
  | .unban    =>
    if l.status = .banned then
      some { l with status := if l.frozenFrom.isSome then .frozen else l.unsuspended }
    else none
  | .void     => if l.status = .voided then none else some { l.revoked with status := .voided }
  | .consume  => if l.status = .unactivated then some { l with status := .voided } else none
  | .wake     => some { l with status := l.status.woken }
  | .revive   =>
    some { l with status := l.status.woken, frozenFrom := l.frozenFrom.map CardStatus.woken }
  | .activate now =>
    if l.status = .unactivated then some { l with status := .active, activatedAt := some now }
    else none

-- A few turns in a row.
def turns (l : Lifecycle) (ts : List Turn) : Option Lifecycle := ts.foldlM turn l

@[simp]
theorem turns_nil : l.turns [] = some l := rfl

@[simp]
theorem turns_single {t : Turn} : l.turns [t] = l.turn t := by simp [turns]

-- Statuses that never were stored as expired, suspended or gone when there is one to restore, and
-- active only once activated.
structure Sound : Prop where
  bounded   : l.tokenVersion ≤ u64Max
  unexpired : l.status ≠ .expired
  suspended : l.frozenFrom.isSome → l.status = .frozen ∨ l.status = .banned ∨ l.status = .voided
  frozen    : l.status = .frozen → l.frozenFrom.isSome
  origin    : ∀ s ∈ l.frozenFrom, s = .unactivated ∨ s = .active
  activated : (l.status = .active ∨ l.frozenFrom = some .active) → l.activatedAt.isSome

variable {l l' : Lifecycle} {t : Turn}

theorem Sound.frozenFrom_none (h : l.Sound) (ho : l.status.isOpen) : l.frozenFrom = none := by
  cases hf : l.frozenFrom
  case none => rfl
  case some =>
    have := h.suspended (by simp [hf])
    simp only [CardStatus.isOpen, Bool.or_eq_true, decide_eq_true_eq] at ho
    rcases this with h | h | h <;> simp [h] at ho

theorem Sound.status_woken (h : l.Sound) : l.status.woken = l.status := if_neg h.unexpired

theorem Sound.frozenFrom_woken (h : l.Sound) : l.frozenFrom.map CardStatus.woken = l.frozenFrom := by
  cases hf : l.frozenFrom
  case none => rfl
  case some s =>
    rcases h.origin s hf with rfl | rfl <;> rfl

theorem Sound.revoked (h : l.Sound) : l.revoked.Sound where
  bounded   := by simp [Lifecycle.revoked, satAddU64]
  unexpired := h.unexpired
  suspended := h.suspended
  frozen    := h.frozen
  origin    := h.origin
  activated := h.activated

theorem Sound.turn (h : l.Sound) (ht : l.turn t = some l') : l'.Sound := by
  cases t <;> simp only [Lifecycle.turn, Option.ite_none_left_eq_some,
    Option.ite_none_right_eq_some, Option.some.injEq] at ht
  case revoke => exact ht ▸ h.revoked
  case freeze =>
    have ⟨ho, ht⟩ := ht
    have hs : l.status = .unactivated ∨ l.status = .active := by
      have := h.unexpired
      simpa [CardStatus.isOpen, this] using ho
    subst ht
    refine ⟨h.revoked.bounded, nofun, fun _ => .inl rfl, fun _ => rfl, ?_, ?_⟩
    · rintro s ⟨⟩
      exact hs
    · rintro (hf | hf)
      · cases hf
      · exact h.activated (.inl (Option.some.inj hf))
  case unfreeze =>
    have ⟨⟨hs, ho⟩, ht⟩ := ht
    have ⟨s, hf⟩ := Option.isSome_iff_exists.mp (h.frozen hs)
    have hso : l.origin = s := by simp [Lifecycle.origin, hf]
    subst ht
    rw [hso]
    refine ⟨h.bounded, ?_, nofun, ?_, nofun, ?_⟩
    all_goals rcases h.origin s hf with rfl | rfl <;> simp
    exact h.activated (.inr hf)
  case ban =>
    have ⟨_, ht⟩ := ht
    subst ht
    exact ⟨h.revoked.bounded, nofun, fun _ => .inr (.inl rfl), nofun, h.origin,
      fun ha => h.activated (.inr (ha.resolve_left nofun))⟩
  case unban =>
    have ⟨_, ht⟩ := ht
    subst ht
    by_cases hf : l.frozenFrom.isSome
    case pos =>
      simp only [hf, if_true]
      exact ⟨h.bounded, nofun, fun _ => .inl rfl, fun _ => hf, h.origin,
        fun ha => h.activated (.inr (ha.resolve_left nofun))⟩
    case neg =>
      simp only [Option.not_isSome_iff_eq_none] at hf
      simp only [hf, Option.isSome_none, Bool.false_eq_true, if_false, Lifecycle.unsuspended]
      constructor
      case bounded => exact h.bounded
      all_goals by_cases ha : l.activatedAt.isSome <;> simp [ha]
  case void =>
    have ⟨_, ht⟩ := ht
    subst ht
    exact ⟨h.revoked.bounded, nofun, fun _ => .inr (.inr rfl), nofun, h.origin,
      fun ha => h.activated (.inr (ha.resolve_left nofun))⟩
  case consume =>
    have ⟨_, ht⟩ := ht
    subst ht
    exact ⟨h.bounded, nofun, fun _ => .inr (.inr rfl), nofun, h.origin,
      fun ha => h.activated (.inr (ha.resolve_left nofun))⟩
  case wake =>
    rw [h.status_woken] at ht
    exact ht ▸ h
  case revive =>
    rw [h.status_woken, h.frozenFrom_woken] at ht
    exact ht ▸ h
  case activate =>
    have ⟨hs, ht⟩ := ht
    have hf := h.frozenFrom_none (by simp [hs, CardStatus.isOpen])
    subst ht
    exact ⟨h.bounded, nofun, fun hi => by simp [hf] at hi, nofun, by simp [hf], fun _ => rfl⟩

-- Once voided, a card stays so.
theorem turn_voided (hv : l.status = .voided) (ht : l.turn t = some l') : l'.status = .voided := by
  cases t <;> simp [Lifecycle.turn, hv, CardStatus.isOpen, CardStatus.woken] at ht
  all_goals
    subst ht
    first | rfl | exact hv

-- Sessions that were ended stay ended.
theorem Sound.turn_tokenVersion (h : l.Sound) (ht : l.turn t = some l') :
    l.tokenVersion ≤ l'.tokenVersion := by
  have hr : l.tokenVersion ≤ l.revoked.tokenVersion := by
    have := h.bounded
    simp only [Lifecycle.revoked, satAddU64]
    omega
  cases t <;> simp only [Lifecycle.turn, Option.ite_none_left_eq_some,
    Option.ite_none_right_eq_some, Option.some.injEq] at ht
  case revoke => exact ht ▸ hr
  case freeze | ban | void => exact ht.right ▸ hr
  case unfreeze | unban | consume | activate => exact ht.right ▸ le_refl _
  case wake | revive => exact ht ▸ le_refl _

theorem turn_endsSessions (ht : l.turn t = some l') (he : t.endsSessions) :
    l'.tokenVersion = satAddU64 l.tokenVersion 1 := by
  cases t <;> simp only [Lifecycle.turn, Option.ite_none_left_eq_some,
    Option.ite_none_right_eq_some, Option.some.injEq] at ht
  case revoke => exact ht ▸ rfl
  case freeze | ban | void => exact ht.right ▸ rfl
  all_goals cases he

-- Lifting a ban doesn't lift a freeze.
theorem turn_unban (ht : l.turn .unban = some l') (hf : l.frozenFrom.isSome) :
    l'.status = .frozen := by
  simp only [Lifecycle.turn, hf, if_true, Option.ite_none_right_eq_some, Option.some.injEq] at ht
  exact ht.right ▸ rfl

-- Only an unfreeze lifts a freeze, and only a freeze makes one.
theorem Sound.turn_frozenFrom (h : l.Sound) (ht : l.turn t = some l') :
    (t = .freeze ∧ l'.frozenFrom = some l.status) ∨
    (t = .unfreeze ∧ l'.frozenFrom = none ∧ l.frozenFrom = some l'.status) ∨
    (t ≠ .freeze ∧ t ≠ .unfreeze ∧ l'.frozenFrom = l.frozenFrom) := by
  cases t <;> simp only [Lifecycle.turn, Option.ite_none_left_eq_some,
    Option.ite_none_right_eq_some, Option.some.injEq] at ht
  case freeze => exact .inl ⟨rfl, ht.right ▸ rfl⟩
  case unfreeze =>
    have ⟨⟨hs, _⟩, ht⟩ := ht
    have ⟨s, hf⟩ := Option.isSome_iff_exists.mp (h.frozen hs)
    subst ht
    exact .inr (.inl ⟨rfl, rfl, by simp [Lifecycle.origin, hf]⟩)
  case revive =>
    subst ht
    exact .inr (.inr ⟨nofun, nofun, h.frozenFrom_woken⟩)
  case revoke | wake => exact .inr (.inr ⟨nofun, nofun, ht ▸ rfl⟩)
  case ban | unban | void | consume | activate => exact .inr (.inr ⟨nofun, nofun, ht.right ▸ rfl⟩)

-- Only activation activates.
theorem turn_activatedAt (ht : l.turn t = some l') (hn : ∀ now, t ≠ .activate now) :
    l'.activatedAt = l.activatedAt := by
  cases t <;> simp only [Lifecycle.turn, Option.ite_none_left_eq_some,
    Option.ite_none_right_eq_some, Option.some.injEq] at ht
  case activate now => exact absurd rfl (hn now)
  case revoke | wake | revive => exact ht ▸ rfl
  all_goals exact ht.right ▸ rfl

-- What every turn preserves, turns in a row do.
theorem turns_preserves {P : Lifecycle → Prop} {ts : List Turn} (hl : l.turns ts = some l')
    (hp : P l) (hs : ∀ {l t l'}, t ∈ ts → P l → l.turn t = some l' → P l') : P l' := by
  induction ts generalizing l
  case nil =>
    cases hl
    exact hp
  case cons t ts hi =>
    simp only [turns, List.foldlM_cons, Option.bind_eq_bind, Option.bind_eq_some_iff] at hl
    have ⟨l₁, ht, hl⟩ := hl
    exact hi hl (hs (.head _) hp ht) fun hm => hs (.tail _ hm)

end Lifecycle

-- The refresh tokens of a card: which version is current, and when it was rotated to it.
structure RefreshFamily where
  version   : Nat
  rotatedAt : Option Nat
  deriving DecidableEq

-- A sign-in, and a rotation.
def RefreshFamily.renewed (f : RefreshFamily) : RefreshFamily := ⟨max (satAddU64 f.version 1) 1, none⟩

def RefreshFamily.rotated (f : RefreshFamily) (now : Nat) : RefreshFamily :=
  ⟨max (satAddU64 f.version 1) 1, some now⟩

-- What no operation changes of a card.
structure CardTerms where
  id                 : String
  issuedCredits      : Option I64
  maxConcurrency     : Nat
  dailyCreditLimit   : Option I64
  monthlyCreditLimit : Option I64
  deriving DecidableEq

namespace Card

variable (c : Card)

def lifecycle : Lifecycle := ⟨c.status, c.frozenFrom, c.activatedAt, c.tokenVersion⟩

def family : RefreshFamily := ⟨c.refreshVersion, c.refreshRotatedAt⟩

def terms : CardTerms :=
  ⟨c.id, c.issuedCredits, c.maxConcurrency, c.dailyCreditLimit, c.monthlyCreditLimit⟩

end Card
end Billing
