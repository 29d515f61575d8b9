import Mathlib

-- Smooth weighted round robin: in each turn, what can be picked gains its weight, and what's picked
-- of these with the greatest current weight loses the total of all weights.
namespace RoundRobin

open Finset

variable {ι : Type} [DecidableEq ι]

def total (s : Finset ι) (w : ι → ℤ) : ℤ := ∑ i ∈ s, w i

def raise (s : Finset ι) (w c : ι → ℤ) (i : ι) : ℤ := if i ∈ s then c i + w i else c i

-- One turn, from current weights to current weights.
def turn (s : Finset ι) (w : ι → ℤ) (pick : (ι → ℤ) → ι) (c : ι → ℤ) (i : ι) : ℤ :=
  raise s w c i - if i = pick (raise s w c) then total s w else 0

-- What's picked in the nth turn from some current weights on.
def picked (s : Finset ι) (w : ι → ℤ) (pick : (ι → ℤ) → ι) (c : ι → ℤ) (n : ℕ) : ι :=
  pick (raise s w ((turn s w pick)^[n] c))

-- A rule that picks one of the greatest current weights.
structure Greatest (s : Finset ι) (pick : (ι → ℤ) → ι) : Prop where
  mem   : ∀ c, pick c ∈ s
  great : ∀ c : ι → ℤ, ∀ i ∈ s, c i ≤ c (pick c)

variable {s : Finset ι} {w : ι → ℤ} {pick : (ι → ℤ) → ι} {c : ι → ℤ} {i : ι} {n : ℕ}

theorem sum_raise : ∑ i ∈ s, raise s w c i = ∑ i ∈ s, c i + total s w := by
  rw [total, ←sum_add_distrib]
  exact sum_congr rfl fun i hi => if_pos hi

theorem sum_turn (h : Greatest s pick) : ∑ i ∈ s, turn s w pick c i = ∑ i ∈ s, c i := by
  simp only [turn, sum_sub_distrib, sum_raise, sum_ite_eq', h.mem, if_true]
  omega

-- Current weights always sum up to what they did at first.
theorem sum_turns (h : Greatest s pick) :
    ∑ i ∈ s, (turn s w pick)^[n] c i = ∑ i ∈ s, c i := by
  induction n
  case zero => rfl
  case succ n hi => rw [Function.iterate_succ_apply', sum_turn h, hi]

-- A current weight is made of what was gained in each turn, and of what was lost when picked.
theorem turns_eq (hi : i ∈ s) : (turn s w pick)^[n] c i =
    c i + n * w i - total s w * Nat.count (fun k => picked s w pick c k = i) n := by
  induction n
  case zero => simp
  case succ n hn =>
    rw [Function.iterate_succ_apply', turn, raise, if_pos hi, hn, Nat.count_succ]
    by_cases hk : picked s w pick c n = i
    case pos =>
      rw [if_pos (show i = pick _ from hk.symm), if_pos hk]
      push_cast
      ring
    case neg =>
      rw [if_neg (show ¬ i = pick _ from Ne.symm hk), if_neg hk]
      push_cast
      ring

theorem turns_of_not_mem (h : Greatest s pick) (hi : i ∉ s) : (turn s w pick)^[n] c i = c i := by
  induction n
  case zero => rfl
  case succ n hn =>
    have hp : i ≠ pick (raise s w ((turn s w pick)^[n] c)) := fun he => hi (he ▸ h.mem _)
    rw [Function.iterate_succ_apply', turn, raise, if_neg hi, if_neg hp, hn, sub_zero]

section

variable (h : Greatest s pick) (hw : ∀ i ∈ s, 0 < w i)
include h hw

-- No current weight falls as far as the total, as what's picked is above the average.
theorem lower_turn (hs : ∑ i ∈ s, c i = 0) (hc : ∀ i ∈ s, - total s w < c i) :
    ∀ i ∈ s, - total s w < turn s w pick c i := by
  intro i hi
  have hp : 0 < w i := hw i hi
  have ht : 0 < total s w := sum_pos hw ⟨i, hi⟩
  rw [turn]
  split
  case isFalse =>
    have := hc i hi
    rw [raise, if_pos hi]
    omega
  case isTrue he =>
    suffices 0 < raise s w c i by omega
    by_contra hn
    have hl : ∑ j ∈ s, raise s w c j ≤ 0 := sum_nonpos fun j hj => by
      have := h.great (raise s w c) j hj
      rw [←he] at this
      omega
    rw [sum_raise, hs] at hl
    omega

theorem lower_turns (hs : ∑ i ∈ s, c i = 0) (hc : ∀ i ∈ s, - total s w < c i) :
    ∀ i ∈ s, - total s w < (turn s w pick)^[n] c i := by
  induction n
  case zero => exact hc
  case succ n hi =>
    rw [Function.iterate_succ']
    exact lower_turn h hw ((sum_turns h).trans hs) hi

variable (hz : ∀ i ∈ s, c i = 0)
include hz

-- After as many turns as the total weight, all current weights are zero again: they are multiples
-- of the total, above its negative, and sum up to zero.
theorem turns_total : ∀ i ∈ s, (turn s w pick)^[(total s w).toNat] c i = 0 := by
  have hs : ∑ i ∈ s, c i = 0 := sum_eq_zero hz
  have hn : ∀ i ∈ s, 0 ≤ (turn s w pick)^[(total s w).toNat] c i := by
    intro i hi
    have ht : 0 < total s w := sum_pos hw ⟨i, hi⟩
    have hl := lower_turns (n := (total s w).toNat) h hw hs
      (fun j hj => by rw [hz j hj]; omega) i hi
    rw [turns_eq hi, hz i hi, Int.toNat_of_nonneg ht.le] at hl ⊢
    generalize (Nat.count (fun k => picked s w pick c k = i) (total s w).toNat : ℤ) = k at *
    have hk : - total s w < total s w * (w i - k) := by linarith
    have : 0 ≤ w i - k := by
      by_contra hneg
      nlinarith
    nlinarith
  exact (sum_eq_zero_iff_of_nonneg hn).mp ((sum_turns h).trans hs)

-- Turns go round in a circle.
theorem turns_circle (m : ℕ) : (turn s w pick)^[(total s w).toNat] ((turn s w pick)^[m] c) =
    (turn s w pick)^[m] c := by
  have hc : (turn s w pick)^[(total s w).toNat] c = c := by
    funext i
    by_cases hi : i ∈ s
    case pos => rw [turns_total h hw hz i hi, hz i hi]
    case neg => exact turns_of_not_mem h hi
  rw [←Function.iterate_add_apply, Nat.add_comm, Function.iterate_add_apply, hc]

end

-- Everything is picked as often as its weight says in as many turns as the total weight, if they
-- lead back to its current weight.
theorem count_total (hw : ∀ i ∈ s, 0 < w i) (hi : i ∈ s)
    (he : (turn s w pick)^[(total s w).toNat] c i = c i) :
    (Nat.count (fun k => picked s w pick c k = i) (total s w).toNat : ℤ) = w i := by
  have ht : 0 < total s w := sum_pos hw ⟨i, hi⟩
  rw [turns_eq hi, Int.toNat_of_nonneg ht.le] at he
  generalize (Nat.count (fun k => picked s w pick c k = i) (total s w).toNat : ℤ) = k at *
  have hm : total s w * (w i - k) = 0 := by linarith
  have := (mul_eq_zero.mp hm).resolve_left ht.ne'
  omega

-- How often something with a property is picked.
theorem count_property {P : ι → Prop} [DecidablePred P] (h : Greatest s pick) :
    Nat.count (fun k => P (picked s w pick c k)) n =
      ∑ i ∈ s.filter P, Nat.count (fun k => picked s w pick c k = i) n := by
  induction n
  case zero => simp
  case succ n hn =>
    have hm : picked s w pick c n ∈ s := h.mem _
    simp only [Nat.count_succ, sum_add_distrib, ←hn, sum_ite_eq, mem_filter, hm, true_and]

end RoundRobin
