import Mathlib

-- A signed 64-bit integer. The bounds are fields, so a value outside of them can't be built.
@[ext]
structure I64 where
  val   : Int
  lower : -9223372036854775808 ≤ val
  upper : val ≤ 9223372036854775807
  deriving DecidableEq

namespace I64

-- The nearest 64-bit integer, which is what saturating operations and casts answer.
def sat (x : Int) : I64 where
  val   := max (-9223372036854775808) (min 9223372036854775807 x)
  lower := by omega
  upper := by omega

instance : OfNat I64 n := ⟨sat n⟩

instance : Inhabited I64 := ⟨0⟩

instance : LE I64 := ⟨fun a b => a.val ≤ b.val⟩

instance : LT I64 := ⟨fun a b => a.val < b.val⟩

instance (a b : I64) : Decidable (a ≤ b) := inferInstanceAs (Decidable (a.val ≤ b.val))

instance (a b : I64) : Decidable (a < b) := inferInstanceAs (Decidable (a.val < b.val))

def maxValue : I64 := sat 9223372036854775807

def satAdd (a b : I64) : I64 := sat (a.val + b.val)

def satSub (a b : I64) : I64 := sat (a.val - b.val)

def satNeg (a : I64) : I64 := sat (-a.val)

def checkedAdd (a b : I64) : Option I64 :=
  if h : -9223372036854775808 ≤ a.val + b.val ∧ a.val + b.val ≤ 9223372036854775807 then
    some ⟨a.val + b.val, h.left, h.right⟩
  else
    none

def max0 (a : I64) : I64 := sat (max a.val 0)

def minOf (a b : I64) : I64 := if a ≤ b then a else b

theorem le_def {a b : I64} : a ≤ b ↔ a.val ≤ b.val := .rfl

theorem lt_def {a b : I64} : a < b ↔ a.val < b.val := .rfl

theorem eq_iff {a b : I64} : a = b ↔ a.val = b.val := I64.ext_iff

theorem le_of_lt {a b : I64} (h : a < b) : a ≤ b := Int.le_of_lt h

theorem not_le {a b : I64} : ¬ a ≤ b ↔ b < a := Int.not_le

theorem eq_of_not_lt {a b : I64} (h : a ≤ b) (hn : ¬ a < b) : b = a :=
  eq_iff.mpr (Int.le_antisymm (Int.not_lt.mp hn) h)

@[simp]
theorem val_sat (x : Int) :
    (sat x).val = max (-9223372036854775808) (min 9223372036854775807 x) :=
  rfl

@[simp]
theorem sat_val (a : I64) : sat a.val = a := by
  have := a.lower
  have := a.upper
  ext
  simp only [val_sat]
  omega

@[simp]
theorem val_zero : (0 : I64).val = 0 := rfl

@[simp]
theorem val_satAdd (a b : I64) :
    (a.satAdd b).val = max (-9223372036854775808) (min 9223372036854775807 (a.val + b.val)) :=
  rfl

@[simp]
theorem val_satSub (a b : I64) :
    (a.satSub b).val = max (-9223372036854775808) (min 9223372036854775807 (a.val - b.val)) :=
  rfl

@[simp]
theorem val_satNeg (a : I64) :
    a.satNeg.val = max (-9223372036854775808) (min 9223372036854775807 (-a.val)) :=
  rfl

@[simp]
theorem val_max0 (a : I64) : a.max0.val = max a.val 0 := by
  have := a.lower
  have := a.upper
  simp only [max0, val_sat]
  omega

@[simp]
theorem val_minOf (a b : I64) : (a.minOf b).val = min a.val b.val := by
  simp only [minOf, le_def]
  split <;> omega

@[simp]
theorem val_maxValue : maxValue.val = 9223372036854775807 := rfl

@[simp]
theorem satAdd_zero (a : I64) : a.satAdd 0 = a := by
  simp [satAdd]

theorem checkedAdd_eq_some {a b c : I64} : a.checkedAdd b = some c ↔ c.val = a.val + b.val := by
  have := c.lower
  have := c.upper
  simp only [checkedAdd]
  split
  case isTrue h => simp [eq_iff, eq_comm]
  case isFalse h => simp; omega

-- A checked addition that succeeds is the saturating one.
theorem checkedAdd_satAdd {a b c : I64} (h : a.checkedAdd b = some c) : c = a.satAdd b := by
  have := checkedAdd_eq_some.mp h
  have := c.lower
  have := c.upper
  ext
  simp only [val_satAdd]
  omega

-- How accumulating loops add values up.
def satSum (init : I64) (xs : List I64) : I64 := xs.foldl satAdd init

@[simp]
theorem satSum_nil : satSum a [] = a := rfl

@[simp]
theorem satSum_cons : satSum a (x :: xs) = satSum (a.satAdd x) xs := rfl

theorem satSum_append : satSum a (xs ++ ys) = satSum (satSum a xs) ys := by
  simp [satSum]

@[simp]
theorem satSum_concat : satSum a (xs ++ [x]) = (satSum a xs).satAdd x := by
  simp [satSum]

-- Over values that aren't negative, saturating at each step is saturating once at the end. This is
-- what makes the order of the additions irrelevant.
theorem val_satSum {a : I64} {xs : List I64} (ha : 0 ≤ a.val) (hx : ∀ x ∈ xs, 0 ≤ x.val) :
    (satSum a xs).val = min 9223372036854775807 (a.val + (xs.map val).sum) := by
  have hu := a.upper
  induction xs generalizing a
  case nil => simp; omega
  case cons x xs hi =>
    have hx' := hx x (by simp)
    have hs : 0 ≤ (xs.map val).sum := List.sum_nonneg (by simp_all)
    rw [satSum_cons, hi (by simp; omega) (fun y hy => hx y (by simp [hy])) (satAdd a x).upper]
    simp only [val_satAdd, List.map_cons, List.sum_cons]
    omega

theorem satSum_nonneg {a : I64} {xs : List I64} (ha : 0 ≤ a.val) (hx : ∀ x ∈ xs, 0 ≤ x.val) :
    0 ≤ (satSum a xs).val := by
  have : 0 ≤ (xs.map val).sum := List.sum_nonneg (by simp_all)
  rw [val_satSum ha hx]
  omega

theorem satSum_perm {a : I64} {xs ys : List I64} (ha : 0 ≤ a.val) (hx : ∀ x ∈ xs, 0 ≤ x.val)
    (hp : xs.Perm ys) : satSum a xs = satSum a ys := by
  ext
  rw [val_satSum ha hx, val_satSum ha (fun y hy => hx y <| hp.mem_iff.mpr hy),
    (hp.map val).sum_eq]

end I64
