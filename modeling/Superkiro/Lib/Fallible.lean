import Mathlib

-- Computations that can be refused, and what those that succeed have gone through.
namespace Except

variable {ε : Type u} {α β : Type v} {a : α} {b : β} {e : ε}

-- Refuses with an error when a check fails.
def ensure (p : Bool) (e : ε) : Except ε Unit := if p then .ok () else .error e

def ofOption (o : Option α) (e : ε) : Except ε α :=
  match o with
  | some a => .ok a
  | none   => .error e

-- Refuses with an error about a problem, where there is one.
def refuse (problem : Option γ) (e : γ → ε) : Except ε Unit :=
  match problem with
  | some x => .error (e x)
  | none   => .ok ()

theorem refuse_eq_ok {o : Option γ} {f : γ → ε} : refuse o f = .ok u ↔ o = none := by
  cases o <;> simp [refuse]

theorem ensure_eq_ok : ensure p e = .ok u ↔ p = true := by
  cases p <;> simp [ensure]

theorem ofOption_eq_ok {o : Option α} : ofOption o e = .ok a ↔ o = some a := by
  cases o <;> simp [ofOption]

theorem bind_eq_ok' {x : Except ε α} {f : α → Except ε β} :
    x >>= f = .ok b ↔ ∃ a, x = .ok a ∧ f a = .ok b := by
  cases x <;> simp [bind, Except.bind]

theorem bind_eq_error {x : Except ε α} {f : α → Except ε β} :
    x >>= f = .error e ↔ x = .error e ∨ ∃ a, x = .ok a ∧ f a = .error e := by
  cases x <;> simp [bind, Except.bind]

theorem pure_eq_ok {a b : α} : (pure a : Except ε α) = .ok b ↔ a = b := by
  simp [pure, Except.pure]

theorem throw_ne_ok : (throw e : Except ε α) ≠ .ok a := by
  simp [throw, throwThe, MonadExceptOf.throw]

theorem mapError_eq_ok {f : ε → ε'} {x : Except ε α} : x.mapError f = .ok a ↔ x = .ok a := by
  cases x <;> simp [Except.mapError]

theorem exists_unit {p : Unit → Prop} : (∃ u, p u) ↔ p () :=
  ⟨fun ⟨_, h⟩ => h, fun h => ⟨_, h⟩⟩

theorem toOption_eq_some {x : Except ε α} : x.toOption = some a ↔ x = .ok a := by
  cases x <;> simp [Except.toOption]

theorem exists_of_isOk {x : Except ε α} (h : x.isOk) : ∃ a, x = .ok a := by
  cases x
  case error => cases h
  case ok a => exact ⟨a, rfl⟩

-- Goes through the elements of a list until one is refused.
def checkAll (xs : List γ) (f : γ → Except ε Unit) : Except ε Unit :=
  match xs with
  | []      => .ok ()
  | x :: xs => f x >>= fun _ => checkAll xs f

theorem checkAll_eq_ok {xs : List γ} {f : γ → Except ε Unit} :
    checkAll xs f = .ok u ↔ ∀ x ∈ xs, f x = .ok () := by
  induction xs
  case nil => simp [checkAll]
  case cons hi => simp [checkAll, hi, bind_eq_ok', exists_unit]

-- What is made of the elements of a list, one by one, is made of each of them.
theorem mapM_eq_ok {f : γ → Except ε α} {xs : List γ} {ys : List α} (h : xs.mapM f = .ok ys) :
    ys.length = xs.length ∧ ∀ y ∈ ys, ∃ x ∈ xs, f x = .ok y := by
  induction xs generalizing ys
  case nil =>
    cases h
    simp
  case cons x xs hi =>
    rw [List.mapM_cons, bind_eq_ok'] at h
    have ⟨y, hy, h⟩ := h
    have ⟨zs, hz, h⟩ := bind_eq_ok'.mp h
    cases h
    have ⟨hl, hm⟩ := hi hz
    refine ⟨by simp [hl], ?_⟩
    intro z hz
    cases List.mem_cons.mp hz
    case inl hz => exact ⟨x, .head _, hz ▸ hy⟩
    case inr hz =>
      have ⟨x', hx', he⟩ := hm z hz
      exact ⟨x', .tail _ hx', he⟩

-- What every step of a fold preserves, the fold preserves.
theorem foldlM_preserves {P : β → Prop} {f : β → γ → Except ε β} {xs : List γ} {b b' : β}
    (hf : ∀ b x b', x ∈ xs → P b → f b x = .ok b' → P b') (h : P b)
    (he : xs.foldlM f b = .ok b') : P b' := by
  induction xs generalizing b
  case nil =>
    cases he
    exact h
  case cons x xs hi =>
    have ⟨c, hc, he⟩ := bind_eq_ok'.mp he
    have hx := hf b x c (by simp) h hc
    exact hi (fun b x b' hm => hf b x b' (by simp [hm])) hx he

end Except
