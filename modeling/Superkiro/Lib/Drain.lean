import Mathlib

-- Machines that are asked for one output after the other, until they have none.
-- With room for so many outputs.
def outputs (step : σ → Option ω × σ) : Nat → σ → List ω × σ
  | 0, s => ([], s)
  | n + 1, s =>
    match step s with
    | (none, s')   => ([], s')
    | (some o, s') => (o :: (outputs step n s').1, (outputs step n s').2)

inductive Drains (step : σ → Option ω × σ) : σ → List ω → σ → Prop
  | halt : step s = (none, s') → Drains step s [] s'
  | next : step s₁ = (some o, s₂) → Drains step s₂ os s₃ → Drains step s₁ (o :: os) s₃

namespace Drains

variable {step : σ → Option ω × σ} {more : σ → σ} {s s₁ s₂ s₃ : σ} {os₁ os₂ : List ω}

theorem deterministic (h₁ : Drains step s os₁ s₁) (h₂ : Drains step s os₂ s₂) :
    os₁ = os₂ ∧ s₁ = s₂ := by
  induction h₁ generalizing os₂
  case halt h₁ =>
    cases h₂ <;> simp_all
  case next h₁ _ hi =>
    cases h₂
    case halt h₂ => simp [h₁] at h₂
    case next h₂ hd =>
      rw [h₁, Prod.mk.injEq, Option.some.injEq] at h₂
      have ⟨ho, hs⟩ := h₂
      subst ho hs
      have ⟨hos, hs⟩ := hi hd
      exact ⟨by rw [hos], hs⟩

-- What comes with every output becomes smaller, so there are only so many.
theorem of_measure (m : σ → Nat) (hm : ∀ s o s', step s = (some o, s') → m s' < m s)
    (h : m s < n) : Drains step s (outputs step n s).1 (outputs step n s).2 := by
  induction n generalizing s
  case zero => omega
  case succ n hi =>
    rw [outputs]
    cases hs : step s
    case mk o s' =>
      cases o
      case none => exact .halt hs
      case some o =>
        have hl := hm s o s' hs
        exact .next hs (hi (by omega))

-- A machine that had no more outputs goes on with those it has once it's extended. It makes no
-- difference whether it was extended before its first outputs.
theorem extend (hs : ∀ s o s', step s = (some o, s') → step (more s) = (some o, more s'))
    (hn : ∀ s s', step s = (none, s') → step (more s) = step (more s'))
    (h₁ : Drains step s₁ os₁ s₂) (h₂ : Drains step (more s₂) os₂ s₃) :
    Drains step (more s₁) (os₁ ++ os₂) s₃ := by
  induction h₁
  case halt s₁ s₂ h =>
    cases h₂
    case halt h₂ => exact .halt ((hn s₁ s₂ h).trans h₂)
    case next h₂ hd => exact .next ((hn s₁ s₂ h).trans h₂) hd
  case next s₁ o s₂ _ _ h _ hi => exact .next (hs s₁ o s₂ h) (hi h₂)

end Drains
