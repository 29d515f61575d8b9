import Mathlib

-- The runs of a system that moves from state to state under labels.
inductive Run (step : σ → ℓ → σ → Prop) : σ → List ℓ → σ → Prop
  | nil  : Run step s [] s
  | cons : step s₁ l s₂ → Run step s₂ ls s₃ → Run step s₁ (l :: ls) s₃

namespace Run

variable {step : σ → ℓ → σ → Prop} {I : σ → Prop} {s s₁ s₂ s₃ : σ} {l : ℓ} {ls ls₁ ls₂ : List ℓ}

theorem single (h : step s₁ l s₂) : Run step s₁ [l] s₂ := cons h nil

theorem trans (r₁ : Run step s₁ ls₁ s₂) (r₂ : Run step s₂ ls₂ s₃) :
    Run step s₁ (ls₁ ++ ls₂) s₃ := by
  induction r₁
  case nil => exact r₂
  case cons h _ hi => exact cons h (hi r₂)

theorem split (r : Run step s₁ (ls₁ ++ ls₂) s₃) :
    ∃ s₂, Run step s₁ ls₁ s₂ ∧ Run step s₂ ls₂ s₃ := by
  induction ls₁ generalizing s₁
  case nil => exact ⟨s₁, nil, r⟩
  case cons hi =>
    cases r
    case cons h r =>
      have ⟨s₂, r₁, r₂⟩ := hi r
      exact ⟨s₂, cons h r₁, r₂⟩

-- What every step preserves, every run preserves.
theorem preserves (hs : ∀ {s l s'}, I s → step s l s' → I s') (r : Run step s₁ ls s₂) (h : I s₁) :
    I s₂ := by
  induction r
  case nil => exact h
  case cons hl _ hi => exact hi (hs h hl)

-- The same where only the steps of the run are known to preserve the invariant.
theorem preserves_mem (hs : ∀ {s l s'}, l ∈ ls → I s → step s l s' → I s')
    (r : Run step s₁ ls s₂) (h : I s₁) : I s₂ := by
  induction r
  case nil => exact h
  case cons hl _ hi => exact hi (fun hm => hs (by simp [hm])) (hs (by simp) h hl)

-- The same where steps are only known to preserve the invariant under a condition that all steps
-- of the run meet.
theorem preserves_of {C : σ → ℓ → Prop} (hs : ∀ {s l s'}, I s → C s l → step s l s' → I s')
    (r : Run (fun s l s' => C s l ∧ step s l s') s₁ ls s₂) (h : I s₁) : I s₂ :=
  r.preserves (fun hI ⟨hc, hl⟩ => hs hI hc hl) h

theorem mono {step' : σ → ℓ → σ → Prop} (hs : ∀ {s l s'}, step s l s' → step' s l s')
    (r : Run step s₁ ls s₂) : Run step' s₁ ls s₂ := by
  induction r
  case nil => exact nil
  case cons h _ hi => exact cons (hs h) hi

-- A quantity that no step decreases.
theorem monotone [Preorder α] {f : σ → α} (hs : ∀ {s l s'}, step s l s' → f s ≤ f s')
    (r : Run step s₁ ls s₂) : f s₁ ≤ f s₂ := by
  induction r
  case nil => exact le_refl _
  case cons h _ hi => exact (hs h).trans hi

-- A run of steps that can be computed.
theorem of_foldlM {step? : σ → ℓ → Option σ} (h : ls.foldlM step? s₁ = some s₂) :
    Run (fun s l s' => step? s l = some s') s₁ ls s₂ := by
  induction ls generalizing s₁
  case nil =>
    cases h
    exact nil
  case cons l ls hi =>
    obtain ⟨s, hs, h⟩ := Option.bind_eq_some_iff.mp h
    exact cons hs (hi h)

end Run
