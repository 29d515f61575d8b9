import Mathlib

-- An amount that's shared in proportion to weights, rounded down along their running total.
namespace Apportion

-- What the weights get up to a running total.
def upTo (amount total running : Int) : Int := (amount * running).tdiv total

def shares (amount total : Int) : Int → List Int → List Int
  | _, []            => []
  | running, w :: ws =>
    (upTo amount total (running + w) - upTo amount total running) ::
      shares amount total (running + w) ws

variable {amount total running w : Int} {ws : List Int}

@[simp]
theorem length_shares : (shares amount total running ws).length = ws.length := by
  induction ws generalizing running
  case nil => rfl
  case cons hi => simp [shares, hi]

theorem sum_shares : (shares amount total running ws).sum =
    upTo amount total (running + ws.sum) - upTo amount total running := by
  induction ws generalizing running
  case nil => simp [shares]
  case cons w ws hi =>
    rw [shares, List.sum_cons, List.sum_cons, hi, ← Int.add_assoc]
    omega

-- The shares of all weights add up to the amount.
theorem sum_shares_all (ht : ws.sum ≠ 0) : (shares amount ws.sum 0 ws).sum = amount := by
  rw [sum_shares, upTo, upTo, Int.zero_add, Int.mul_zero, Int.zero_tdiv, Int.sub_zero,
    Int.mul_tdiv_cancel _ ht]

theorem upTo_eq (ha : 0 ≤ amount) (hr : 0 ≤ running) :
    upTo amount total running = amount * running / total :=
  Int.tdiv_eq_ediv_of_nonneg (Int.mul_nonneg ha hr)

theorem upTo_le (ha : 0 ≤ amount) (ht : 0 < total) (hr : 0 ≤ running) (hw : 0 ≤ w) :
    upTo amount total running ≤ upTo amount total (running + w) := by
  rw [upTo_eq ha hr, upTo_eq ha (Int.add_nonneg hr hw)]
  apply Int.ediv_le_ediv ht
  exact Int.mul_le_mul_of_nonneg_left (by omega) ha

-- No weight gets more than itself where there's no more to share than the weights come to.
theorem upTo_add_le (ha : 0 ≤ amount) (ht : 0 < total) (hl : amount ≤ total) (hr : 0 ≤ running)
    (hw : 0 ≤ w) : upTo amount total (running + w) ≤ upTo amount total running + w := by
  rw [upTo_eq ha hr, upTo_eq ha (Int.add_nonneg hr hw), ← Int.add_mul_ediv_left _ _ ht.ne']
  apply Int.ediv_le_ediv ht
  rw [Int.mul_add]
  exact Int.add_le_add_left (Int.mul_le_mul_of_nonneg_right hl hw) _

theorem shares_nonneg (ha : 0 ≤ amount) (ht : 0 < total) (hr : 0 ≤ running) (hw : ∀ w ∈ ws, 0 ≤ w) :
    ∀ s ∈ shares amount total running ws, 0 ≤ s := by
  induction ws generalizing running
  case nil => exact List.forall_mem_nil _
  case cons w ws hi =>
    rw [List.forall_mem_cons] at hw
    refine List.forall_mem_cons.mpr ⟨?_, hi (Int.add_nonneg hr hw.left) hw.right⟩
    have := upTo_le ha ht hr hw.left
    omega

theorem shares_le (ha : 0 ≤ amount) (ht : 0 < total) (hl : amount ≤ total) (hr : 0 ≤ running)
    (hw : ∀ w ∈ ws, 0 ≤ w) : List.Forall₂ (· ≤ ·) (shares amount total running ws) ws := by
  induction ws generalizing running
  case nil => exact .nil
  case cons w ws hi =>
    rw [List.forall_mem_cons] at hw
    refine .cons ?_ (hi (Int.add_nonneg hr hw.left) hw.right)
    have := upTo_add_le ha ht hl hr hw.left
    omega

-- No weight gets more than there is.
theorem shares_le_amount (ha : 0 ≤ amount) (ht : 0 < ws.sum) (hw : ∀ w ∈ ws, 0 ≤ w) :
    ∀ s ∈ shares amount ws.sum 0 ws, s ≤ amount := by
  intro s hs
  have h := List.single_le_sum (shares_nonneg ha ht (Int.le_refl 0) hw) s hs
  rwa [sum_shares_all ht.ne'] at h

end Apportion
