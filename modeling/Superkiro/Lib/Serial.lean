import Superkiro.Lib.Run

-- Requests that read a shared state in some steps, and then change it in one.
namespace Serial

-- What a request does next.
inductive Next (σ π ε : Type)
  | reads (phase : π)
  | commits (shared : σ)
  | refuses (e : ε)

structure Requests (ι σ π ε : Type) where
  start : π
  next  : ι → π → σ → Next σ π ε

-- The requests that aren't over have a phase. Those that are done are in the order of their commits.
structure World (ι σ π : Type) where
  shared : σ
  phase  : ι → Option π
  done   : List ι

variable {ι σ π ε : Type} (R : Requests ι σ π ε)

namespace Requests

-- How a request comes from a phase to its commit while the shared state stays the same.
inductive AloneFrom (i : ι) (s s' : σ) : π → Prop
  | commits : R.next i p s = .commits s' → AloneFrom i s s' p
  | reads : R.next i p s = .reads p' → AloneFrom i s s' p' → AloneFrom i s s' p

def Alone (i : ι) (s s' : σ) : Prop := R.AloneFrom i s s' R.start

variable {R} {i : ι} {s s' : σ} {p : π} in
theorem aloneFrom_iff : R.AloneFrom i s s' p ↔
    R.next i p s = .commits s' ∨ ∃ p', R.next i p s = .reads p' ∧ R.AloneFrom i s s' p' := by
  constructor
  case mp =>
    rintro (h | ⟨h, ha⟩)
    case commits => exact .inl h
    case reads => exact .inr ⟨_, h, ha⟩
  case mpr =>
    rintro (h | ⟨p', h, ha⟩)
    case inl => exact .commits h
    case inr => exact .reads h ha

-- Requests that run one at a time.
inductive Ordered : σ → List ι → σ → Prop
  | nil : Ordered s [] s
  | snoc : Ordered s is s' → R.Alone i s' s'' → Ordered s (is ++ [i]) s''

def init (s : σ) : World ι σ π := ⟨s, fun _ => some R.start, []⟩

variable [DecidableEq ι]

-- A commit may also fail.
inductive Step : World ι σ π → ι → World ι σ π → Prop
  | reads : w.phase i = some p → R.next i p w.shared = .reads p' →
    Step w i { w with phase := Function.update w.phase i (some p') }
  | commits : w.phase i = some p → R.next i p w.shared = .commits s →
    Step w i ⟨s, Function.update w.phase i none, w.done ++ [i]⟩
  | fails : w.phase i = some p → R.next i p w.shared = .commits s →
    Step w i { w with phase := Function.update w.phase i none }
  | refuses : w.phase i = some p → R.next i p w.shared = .refuses e →
    Step w i { w with phase := Function.update w.phase i none }

variable {R} {P : σ → Prop} {Q : ι → π → Prop} {C : World ι σ π → ι → Prop} {w w' : World ι σ π}
  {s₀ : σ} {i : ι}

omit [DecidableEq ι] in
theorem Ordered.preserves (hP : ∀ {i s s'}, P s → R.Alone i s s' → P s')
    (h : R.Ordered s₀ is s) (h₀ : P s₀) : P s := by
  induction h
  case nil => exact h₀
  case snoc ha hi => exact hP hi ha

-- The requests that are done ran one at a time, and those that aren't over have only read.
structure Tidy (R : Requests ι σ π ε) (P : σ → Prop) (Q : ι → π → Prop) (s₀ : σ)
    (w : World ι σ π) : Prop where
  ordered : R.Ordered s₀ w.done w.shared
  nodup   : w.done.Nodup
  ended   : ∀ {i}, i ∈ w.done → w.phase i = none
  shared  : P w.shared
  phases  : ∀ {i p}, w.phase i = some p → Q i p

omit [DecidableEq ι] in
theorem Tidy.init (hQ : ∀ i, Q i R.start) (h : P s₀) : R.Tidy P Q s₀ (R.init s₀) where
  ordered  := .nil
  nodup    := .nil
  ended h  := by cases h
  shared   := h
  phases h := by
    cases h
    exact hQ _

theorem Tidy.ended_update (t : R.Tidy P Q s₀ w) (h : i ∈ w.done) :
    Function.update w.phase j none i = none := by
  by_cases hij : i = j
  case pos => rw [hij, Function.update_self]
  case neg => rw [Function.update_of_ne hij, t.ended h]

-- A request that isn't over isn't done.
omit [DecidableEq ι] in
theorem Tidy.not_mem (t : R.Tidy P Q s₀ w) (h : w.phase i = some p) : i ∉ w.done := by
  intro hi
  cases (t.ended hi).symm.trans h

theorem Tidy.ends (t : R.Tidy P Q s₀ w) :
    R.Tidy P Q s₀ { w with phase := Function.update w.phase i none } where
  ordered  := t.ordered
  nodup    := t.nodup
  ended    := t.ended_update
  shared   := t.shared
  phases {j p} h := by
    by_cases hj : j = i
    case pos =>
      rw [hj] at h
      simp at h
    case neg =>
      simp only [Function.update_of_ne hj] at h
      exact t.phases h

-- What the steps keep if a request commits what it would alone.
theorem Tidy.step (hr : ∀ {i p s p'}, Q i p → P s → R.next i p s = .reads p' → Q i p')
    (hP : ∀ {i s s'}, P s → R.Alone i s s' → P s')
    (hc : ∀ {w i p s}, C w i → P w.shared → Q i p → w.phase i = some p →
      R.next i p w.shared = .commits s → R.Alone i w.shared s)
    (t : R.Tidy P Q s₀ w) (hC : C w i) (h : R.Step w i w') : R.Tidy P Q s₀ w' := by
  cases h
  case reads p p' hp hn =>
    have hq := hr (t.phases hp) t.shared hn
    exact {
      ordered := t.ordered
      nodup   := t.nodup
      ended   := by
        intro j hj
        have hne : j ≠ i := fun he => t.not_mem hp (he ▸ hj)
        simp only [Function.update_of_ne hne]
        exact t.ended hj
      shared  := t.shared
      phases  := by
        intro j q hj
        by_cases he : j = i
        case pos =>
          subst he
          simp only [Function.update_self] at hj
          cases hj
          exact hq
        case neg =>
          simp only [Function.update_of_ne he] at hj
          exact t.phases hj
    }
  case commits p s hp hn =>
    have ha := hc hC t.shared (t.phases hp) hp hn
    exact {
      ordered := t.ordered.snoc ha
      nodup   := by
        rw [List.nodup_append]
        refine ⟨t.nodup, List.nodup_singleton i, ?_⟩
        intro j hj k hk he
        cases List.mem_singleton.mp hk
        exact t.not_mem hp (he ▸ hj)
      ended   := by
        intro j hj
        obtain hj | hj := List.mem_append.mp hj
        case inl => exact t.ended_update hj
        case inr =>
          cases List.mem_singleton.mp hj
          exact Function.update_self _ _ _
      shared  := hP t.shared ha
      phases  := (t.ends (i := i)).phases
    }
  case fails => exact t.ends
  case refuses => exact t.ends

-- Requests that commit what they would alone come to what they would one at a time.
theorem serial (hQ : ∀ i, Q i R.start)
    (hr : ∀ {i p s p'}, Q i p → P s → R.next i p s = .reads p' → Q i p')
    (hP : ∀ {i s s'}, P s → R.Alone i s s' → P s')
    (hc : ∀ {w i p s}, C w i → P w.shared → Q i p → w.phase i = some p →
      R.next i p w.shared = .commits s → R.Alone i w.shared s)
    (r : Run (fun w i w' => C w i ∧ R.Step w i w') (R.init s₀) is w) (h : P s₀) :
    R.Tidy P Q s₀ w :=
  r.preserves_of (fun t hC h => t.step hr hP hc hC h) (.init hQ h)

end Requests

end Serial
