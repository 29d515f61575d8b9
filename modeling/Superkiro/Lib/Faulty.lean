import Mathlib

-- Programs with steps that may fail, which may also die before or after any of them.
namespace Faulty

inductive Prog (σ ε α : Type)
  | done (result : Except ε α)
  | look (next : σ → Prog σ ε α)
  -- A step that fails changes nothing. What's next is told whether it was done.
  | step (f : σ → σ) (next : Bool → Prog σ ε α)

namespace Prog

section

variable {σ ε ε' α β : Type}

def bind : Prog σ ε α → (α → Prog σ ε β) → Prog σ ε β
  | done (.ok a), f    => f a
  | done (.error e), _ => done (.error e)
  | look next, f       => look fun s => (next s).bind f
  | step g next, f     => step g fun b => (next b).bind f

instance : Monad (Prog σ ε) where
  pure a := done (.ok a)
  bind   := bind

def throw (e : ε) : Prog σ ε α := done (.error e)

-- What was thrown or returned.
def attempt : Prog σ ε α → Prog σ ε' (Except ε α)
  | done r      => done (.ok r)
  | look next   => look fun s => (next s).attempt
  | step g next => step g fun b => (next b).attempt

def get : Prog σ ε σ := look fun s => done (.ok s)

-- Whether a step that changes nothing was done, such as a read.
def may : Prog σ ε Bool := step id fun b => done (.ok b)

def act (f : σ → σ) (e : ε) : Prog σ ε Unit :=
  step f fun b => done (if b then .ok () else .error e)

def lift (r : Except ε α) : Prog σ ε α := done r

def mapError (f : ε → ε') : Prog σ ε α → Prog σ ε' α
  | done r      => done (r.mapError f)
  | look next   => look fun s => (next s).mapError f
  | step g next => step g fun b => (next b).mapError f

-- The program where nothing fails.
def run : Prog σ ε α → σ → Except ε α × σ
  | done r, s      => (r, s)
  | look next, s   => (next s).run s
  | step f next, s => (next true).run (f s)

-- What becomes of a step.
inductive Fault
  | none
  | fails
  | dies

-- The program with faults at its steps, one after another. Steps that aren't listed are done.
def runWith (faults : List Fault) : Prog σ ε α → σ → Option (Except ε α) × σ
  | done r, s      => (some r, s)
  | look next, s   => (next s).runWith faults s
  | step f next, s =>
    match faults with
    | .dies :: _       => (none, s)
    | .fails :: faults => (next false).runWith faults s
    | .none :: faults  => (next true).runWith faults (f s)
    | []               => (next true).runWith [] (f s)

-- What a program can come to. Where it dies there's no result.
inductive Ends : Prog σ ε α → σ → Option (Except ε α) → σ → Prop
  | done {r s}             : Ends (.done r) s (some r) s
  | died {p s}             : Ends p s none s
  | look {next s r s'}     : Ends (next s) s r s' → Ends (.look next) s r s'
  | did {f next s r s'}    : Ends (next true) (f s) r s' → Ends (.step f next) s r s'
  | failed {f next s r s'} : Ends (next false) s r s' → Ends (.step f next) s r s'

-- Whatever fails, `C` holds wherever the program may die, and `Q` of what it ends with.
def Meets (C : σ → Prop) (Q : Except ε α → σ → Prop) : Prog σ ε α → σ → Prop
  | done r, s      => C s ∧ Q r s
  | look next, s   => (next s).Meets C Q s
  | step f next, s => C s ∧ (next true).Meets C Q (f s) ∧ (next false).Meets C Q s

end

section

variable {σ ε ε' α β : Type} {C C' : σ → Prop} {Q Q' : Except ε α → σ → Prop} {p : Prog σ ε α}
  {s s' : σ}

theorem Meets.dies (h : p.Meets C Q s) : C s := by
  induction p
  case done => exact h.left
  case look hi => exact hi _ h
  case step => exact h.left

-- A program ends only as it meets.
theorem Meets.ends {r : Option (Except ε α)} (h : p.Meets C Q s) (he : p.Ends s r s') :
    C s' ∧ ∀ result, r = some result → Q result s' := by
  induction he
  case done => exact ⟨h.left, fun _ hr => Option.some.inj hr ▸ h.right⟩
  case died => exact ⟨h.dies, fun _ hr => by cases hr⟩
  case look hi => exact hi h
  case did hi => exact hi h.right.left
  case failed hi => exact hi h.right.right

theorem Meets.mono (h : p.Meets C Q s) (hc : ∀ s, C s → C' s) (hq : ∀ r s, C s → Q r s → Q' r s) :
    p.Meets C' Q' s := by
  induction p generalizing s
  case done => exact ⟨hc _ h.left, hq _ _ h.left h.right⟩
  case look hi => exact hi _ h
  case step hi => exact ⟨hc _ h.left, hi _ h.right.left, hi _ h.right.right⟩

-- What follows on a result.
def next (Q : Except ε β → σ → Prop) (meets : α → σ → Prop) : Except ε α → σ → Prop
  | .ok a, s    => meets a s
  | .error e, s => Q (.error e) s

theorem meets_bind {f : α → Prog σ ε β} {Q : Except ε β → σ → Prop}
    (h : p.Meets C (next Q fun a => (f a).Meets C Q) s) : (p >>= f).Meets C Q s := by
  show (p.bind f).Meets C Q s
  induction p generalizing s
  case done r =>
    cases r
    case ok a => exact h.right
    case error => exact h
  case look hi => exact hi _ h
  case step hi => exact ⟨h.left, hi _ h.right.left, hi _ h.right.right⟩

theorem meets_act {Q : Except ε Unit → σ → Prop} {f : σ → σ} {e : ε} (hc : C s) (hf : C (f s))
    (hok : Q (.ok ()) (f s)) (herror : Q (.error e) s) : (act f e).Meets C Q s :=
  ⟨hc, ⟨hf, hok⟩, hc, herror⟩

-- What follows on a step has to meet the same, and so has what's thrown where it fails.
@[simp] theorem meets_get_bind {f : σ → Prog σ ε β} {Q : Except ε β → σ → Prop} :
    (get >>= f).Meets C Q s ↔ (f s).Meets C Q s := .rfl

@[simp] theorem meets_act_bind {g : σ → σ} {e : ε} {f : Unit → Prog σ ε β}
    {Q : Except ε β → σ → Prop} : (act g e >>= f).Meets C Q s ↔
      C s ∧ (f ()).Meets C Q (g s) ∧ C s ∧ Q (.error e) s := .rfl

theorem meets_lift_bind {r : Except ε α} {f : α → Prog σ ε β} {Q : Except ε β → σ → Prop} (hc : C s)
    (hok : ∀ a, r = .ok a → (f a).Meets C Q s) (herror : ∀ e, r = .error e → Q (.error e) s) :
    (lift r >>= f).Meets C Q s := by
  cases r
  case ok a => exact hok a rfl
  case error e => exact ⟨hc, herror e rfl⟩

theorem meets_attempt {Q : Except ε' (Except ε α) → σ → Prop}
    (h : p.Meets C (fun r => Q (.ok r)) s) : p.attempt.Meets C Q s := by
  induction p generalizing s
  case done => exact h
  case look hi => exact hi _ h
  case step hi => exact ⟨h.left, hi _ h.right.left, hi _ h.right.right⟩

theorem meets_mapError {f : ε → ε'} {Q : Except ε' α → σ → Prop}
    (h : p.Meets C (fun r => Q (r.mapError f)) s) : (p.mapError f).Meets C Q s := by
  induction p generalizing s
  case done => exact h
  case look hi => exact hi _ h
  case step hi => exact ⟨h.left, hi _ h.right.left, hi _ h.right.right⟩

-- A program that changes nothing, whatever it returns.
def Reads (p : Prog σ ε α) (s : σ) (R : Except ε α → Prop) : Prop :=
  p.Meets (· = s) (fun r _ => R r) s

variable {R : Except ε α → Prop} {f : α → Prog σ ε β}

theorem Reads.meets (h : p.Reads s R) (hc : C s) (hq : ∀ r, R r → Q r s) : p.Meets C Q s :=
  h.mono (fun _ hs => hs ▸ hc) fun r _ hs hr => hs ▸ hq r hr

theorem Reads.bind {Q : Except ε β → σ → Prop} (h : p.Reads s R) (hc : C s)
    (hok : ∀ a, R (.ok a) → (f a).Meets C Q s) (herror : ∀ e, R (.error e) → Q (.error e) s) :
    (p >>= f).Meets C Q s := by
  apply meets_bind
  apply h.meets hc
  intro r hr
  cases r
  case ok a => exact hok a hr
  case error e => exact herror e hr

theorem Reads.mapError {f : ε → ε'} (h : p.Reads s R) :
    (p.mapError f).Reads s fun r => ∃ r', R r' ∧ r = r'.mapError f :=
  meets_mapError <| h.meets rfl fun r hr => ⟨r, hr, rfl⟩

section

variable {s : σ}

-- What's run where a program has ended.
def follow (f : α → Prog σ ε β) : Except ε α × σ → Except ε β × σ
  | (.ok a, s)    => (f a).run s
  | (.error e, s) => (.error e, s)

@[simp] theorem follow_ok {f : α → Prog σ ε β} {a : α} : follow f (.ok a, s) = (f a).run s := rfl

@[simp] theorem follow_error {f : α → Prog σ ε β} {e : ε} : follow f (.error e, s) = (.error e, s) :=
  rfl

theorem run_bind {f : α → Prog σ ε β} : (p >>= f).run s = follow f (p.run s) := by
  show (p.bind f).run s = _
  induction p generalizing s
  case done r => cases r <;> rfl
  case look hi => exact hi _
  case step hi => exact hi _

@[simp] theorem run_pure {a : α} : (pure a : Prog σ ε α).run s = (.ok a, s) := rfl

@[simp] theorem run_throw {e : ε} : (throw e : Prog σ ε α).run s = (.error e, s) := rfl

@[simp] theorem run_lift {r : Except ε α} : (lift r : Prog σ ε α).run s = (r, s) := rfl

@[simp] theorem run_get : (get : Prog σ ε σ).run s = (.ok s, s) := rfl

@[simp] theorem run_may : (may : Prog σ ε Bool).run s = (.ok true, s) := rfl

@[simp] theorem run_act {f : σ → σ} {e : ε} : (act f e).run s = (.ok (), f s) := rfl

theorem run_attempt : (p.attempt : Prog σ ε' _).run s = (.ok (p.run s).1, (p.run s).2) := by
  induction p generalizing s
  case done => rfl
  case look hi => exact hi _
  case step hi => exact hi _

theorem run_mapError {f : ε → ε'} : (p.mapError f).run s = ((p.run s).1.mapError f, (p.run s).2) := by
  induction p generalizing s
  case done => rfl
  case look hi => exact hi _
  case step hi => exact hi _

theorem ends_run : p.Ends s (some (p.run s).1) (p.run s).2 := by
  induction p generalizing s
  case done => exact .done
  case look hi => exact .look (hi _)
  case step hi => exact .did (hi _)

theorem Reads.run (h : p.Reads s R) : ∃ r, R r ∧ p.run s = (r, s) := by
  obtain ⟨hs, hr⟩ := h.ends ends_run
  exact ⟨_, hr _ rfl, Prod.ext rfl hs⟩

theorem ends_runWith {faults : List Fault} :
    p.Ends s (p.runWith faults s).1 (p.runWith faults s).2 := by
  induction p generalizing s faults
  case done => exact .done
  case look hi => exact .look (hi _)
  case step hi =>
    cases faults
    case nil => exact .did (hi _)
    case cons fault faults =>
      cases fault
      case none => exact .did (hi _)
      case fails => exact .failed (hi _)
      case dies => exact .died

end

end

end Prog

end Faulty
