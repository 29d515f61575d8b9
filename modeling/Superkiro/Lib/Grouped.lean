import Mathlib

-- Lists of tagged groups whose neighbours of one tag are merged.
namespace Grouped

variable {τ α : Type} [DecidableEq τ] {g : τ × List α} {gs done : List (τ × List α)}

-- Adds a group in front of merged ones.
def push (g : τ × List α) : List (τ × List α) → List (τ × List α)
  | []            => [g]
  | (t, xs) :: gs => if g.1 = t then (t, g.2 ++ xs) :: gs else g :: (t, xs) :: gs

-- Adds a group behind merged ones, of which the last is the first of the list.
def extend (done : List (τ × List α)) (g : τ × List α) : List (τ × List α) :=
  match done with
  | []            => [g]
  | (t, xs) :: gs => if t = g.1 then (t, xs ++ g.2) :: gs else g :: (t, xs) :: gs

def merge (gs : List (τ × List α)) : List (τ × List α) := (gs.foldl extend []).reverse

-- The elements of all groups, each with its tag.
def elements (gs : List (τ × List α)) : List (τ × α) := gs.flatMap fun g => g.2.map (g.1, ·)

def Alternates (gs : List (τ × List α)) : Prop := gs.IsChain fun g g' => g.1 ≠ g'.1

omit [DecidableEq τ] in
@[simp]
theorem elements_cons : elements (g :: gs) = g.2.map (g.1, ·) ++ elements gs := rfl

theorem elements_push : elements (push g gs) = g.2.map (g.1, ·) ++ elements gs := by
  cases gs
  case nil => rfl
  case cons h gs =>
    simp only [push]
    split
    case isTrue ht => simp [ht, List.append_assoc]
    case isFalse => rfl

theorem push_push {t : τ} {xs ys : List α} : push (t, xs) (push (t, ys) gs) = push (t, xs ++ ys) gs := by
  cases gs
  case nil => simp [push]
  case cons h gs =>
    by_cases ht : t = h.1
    case pos => simp [push, ht]
    case neg => simp [push, ht]

theorem push_head_tag : ∃ xs gs', push g gs = (g.1, xs) :: gs' := by
  cases gs
  case nil => exact ⟨_, _, rfl⟩
  case cons h gs =>
    simp only [push]
    split
    case isTrue ht => exact ⟨_, _, by rw [← ht]⟩
    case isFalse => exact ⟨_, _, rfl⟩

theorem Alternates.push (h : Alternates gs) : Alternates (push g gs) := by
  cases gs
  case nil => exact List.isChain_singleton _
  case cons g' gs =>
    simp only [Grouped.push]
    split
    case isTrue =>
      cases gs
      case nil => exact List.isChain_singleton _
      case cons => exact List.isChain_cons_cons.mpr (List.isChain_cons_cons.mp h)
    case isFalse ht => exact List.isChain_cons_cons.mpr ⟨ht, h⟩

theorem alternates_foldr : Alternates (gs.foldr push []) := by
  induction gs
  case nil => exact List.isChain_nil
  case cons hi => exact hi.push

-- Groups are pushed from the last one on.
theorem foldl_push_extend :
    (extend done g).foldl (fun gs g => push g gs) gs = done.foldl (fun gs g => push g gs) (push g gs) := by
  cases done
  case nil => rfl
  case cons h done =>
    simp only [extend]
    split
    case isTrue ht =>
      rw [List.foldl_cons, List.foldl_cons, ← push_push, show (h.1, g.2) = g from Prod.ext ht rfl]
    case isFalse => rfl

theorem alternates_extend (h : Alternates done) : Alternates (extend done g) := by
  cases done
  case nil => exact List.isChain_singleton _
  case cons g' done =>
    simp only [extend]
    split
    case isTrue =>
      cases done
      case nil => exact List.isChain_singleton _
      case cons => exact List.isChain_cons_cons.mpr (List.isChain_cons_cons.mp h)
    case isFalse ht => exact List.isChain_cons_cons.mpr ⟨fun h => ht h.symm, h⟩

theorem foldl_push_of_alternates (h : Alternates done) (hl : ∀ d ∈ done.head?, ∀ g ∈ gs.head?, d.1 ≠ g.1) :
    done.foldl (fun gs g => push g gs) gs = done.reverse ++ gs := by
  induction done generalizing gs
  case nil => rfl
  case cons d done hi =>
    have hp : push d gs = d :: gs := by
      cases gs
      case nil => rfl
      case cons g gs => simp [push, hl d rfl g rfl]
    rw [List.foldl_cons, hp, hi h.tail, List.reverse_cons, List.append_assoc]
    · rfl
    · intro d' hd' g hg
      cases hg
      cases done
      case nil => cases hd'
      case cons =>
        cases hd'
        exact fun he => (List.isChain_cons_cons.mp h).left he.symm

-- Merging from the front is merging from the back.
theorem merge_eq : merge gs = gs.foldr push [] := by
  have hf (gs done : List (τ × List α)) (rest : List (τ × List α)) :
      (gs.foldl extend done).foldl (fun gs g => push g gs) rest =
        done.foldl (fun gs g => push g gs) (gs.foldr push rest) := by
    induction gs generalizing done
    case nil => rfl
    case cons g gs hi => rw [List.foldl_cons, hi, foldl_push_extend, List.foldr_cons]
  have ha (gs done : List (τ × List α)) (h : Alternates done) : Alternates (gs.foldl extend done) := by
    induction gs generalizing done
    case nil => exact h
    case cons hi => exact hi _ (alternates_extend h)
  have h := hf gs [] []
  rw [foldl_push_of_alternates (ha gs [] List.isChain_nil) (by simp), List.append_nil] at h
  exact h

theorem merge_cons : merge (g :: gs) = push g (merge gs) := by
  rw [merge_eq, merge_eq, List.foldr_cons]

theorem alternates_merge : Alternates (merge gs) := by
  rw [merge_eq]
  exact alternates_foldr

@[simp]
theorem elements_merge : elements (merge gs) = elements gs := by
  induction gs
  case nil => rfl
  case cons hi => rw [merge_cons, elements_push, hi, elements_cons]

-- What holds of all groups and survives the merge of two, holds of all merged groups.
theorem forall_merge {P : τ × List α → Prop} (h : ∀ g ∈ gs, P g)
    (hm : ∀ t xs ys, P (t, xs) → P (t, ys) → P (t, xs ++ ys)) : ∀ g ∈ merge gs, P g := by
  induction gs
  case nil => simp [merge]
  case cons g gs hi =>
    have hi := hi fun g hg => h g (by simp [hg])
    have hg := h g (by simp)
    rw [merge_cons]
    generalize merge gs = ms at hi ⊢
    cases ms
    case nil => simpa [push] using hg
    case cons g' ms =>
      simp only [push]
      split
      case isTrue ht =>
        intro x hx
        cases hx
        case head => exact hm _ _ _ (ht ▸ hg) (hi g' (by simp))
        case tail hx => exact hi x (.tail _ hx)
      case isFalse =>
        intro x hx
        cases hx
        case head => exact hg
        case tail hx => exact hi x hx

end Grouped
