import Mathlib

-- Commands that change a state one after another, until one of them fails.
namespace Script

variable {κ σ : Type*} {fails : κ → Bool} {commands : List (κ × (σ → σ))} {s s' : σ}

-- A command that fails changes nothing, and leaves the state to whoever handles it.
def run (fails : κ → Bool) : List (κ × (σ → σ)) → σ → Except σ σ
  | [], s                  => .ok s
  | (c, f) :: commands, s => if fails c then .error s else run fails commands (f s)

def effect (commands : List (κ × (σ → σ))) (s : σ) : σ := commands.foldl (fun s c => c.2 s) s

def succeeds (fails : κ → Bool) (commands : List (κ × (σ → σ))) : Bool :=
  commands.all fun c => !fails c.1

theorem run_of_succeeds (h : succeeds fails commands) :
    run fails commands s = .ok (effect commands s) := by
  induction commands generalizing s
  case nil => rfl
  case cons c commands hi =>
    rw [succeeds, List.all_cons, Bool.and_eq_true, Bool.not_eq_true'] at h
    rw [run, h.1, if_neg Bool.false_ne_true, hi h.2]
    rfl

-- What no command changes holds where the script fails too.
theorem run_of_not_succeeds {P : σ → Prop} (hc : ∀ c ∈ commands, ∀ s, P s → P (c.2 s))
    (h : succeeds fails commands = false) (hs : P s) :
    ∃ s', run fails commands s = .error s' ∧ P s' := by
  induction commands generalizing s
  case nil => cases h
  case cons c commands hi =>
    rw [run]
    cases hf : fails c.1
    case true => exact ⟨s, rfl, hs⟩
    case false =>
      rw [succeeds, List.all_cons, hf, Bool.not_false, Bool.true_and] at h
      rw [List.forall_mem_cons] at hc
      rw [if_neg Bool.false_ne_true]
      exact hi hc.2 h (hc.1 s hs)

theorem effect_preserves {P : σ → Prop} (hc : ∀ c ∈ commands, ∀ s, P s → P (c.2 s)) (hs : P s) :
    P (effect commands s) := by
  induction commands generalizing s
  case nil => exact hs
  case cons c commands hi =>
    rw [List.forall_mem_cons] at hc
    exact hi hc.2 (hc.1 s hs)

end Script
