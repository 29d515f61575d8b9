import Mathlib

-- Arithmetic of unsigned machine numbers, as a machine does it, as it's meant, and as it's done
-- where an overflow is an error.
namespace Width

-- Literals, sums, and products with a constant.
structure Arithmetic (U : Type) where
  lit   : Nat → U
  add   : U → U → U
  times : U → Nat → U

namespace Arithmetic

variable {U V : Type}

def sum (A : Arithmetic U) (us : List U) : U := us.foldl A.add (A.lit 0)

def exact : Arithmetic Nat where
  lit   := id
  add   := (· + ·)
  times := (· * ·)

def wrapping (width : Nat) : Arithmetic Nat where
  lit n     := n % 2 ^ width
  add m n   := (m + n) % 2 ^ width
  times n k := n * k % 2 ^ width

-- A number if it fits.
def fit (width n : Nat) : Option Nat := if n < 2 ^ width then some n else none

def checked (width : Nat) : Arithmetic (Option Nat) where
  lit n     := fit width n
  add m n   := do fit width ((← m) + (← n))
  times n k := do fit width ((← n) * k)

-- A relation of numbers that all operations keep.
structure Simulates (A : Arithmetic U) (B : Arithmetic V) (R : U → V → Prop) : Prop where
  lit   : ∀ n, R (A.lit n) (B.lit n)
  add   : ∀ {a a' b b'}, R a b → R a' b' → R (A.add a a') (B.add b b')
  times : ∀ {a b k}, 0 < k → R a b → R (A.times a k) (B.times b k)

theorem Simulates.sum {A : Arithmetic U} {B : Arithmetic V} {R : U → V → Prop}
    (h : Simulates A B R) {us : List U} {vs : List V} (hs : List.Forall₂ R us vs) :
    R (A.sum us) (B.sum vs) := by
  have fold {a b} (hab : R a b) : R (us.foldl A.add a) (vs.foldl B.add b) := by
    induction hs generalizing a b
    case nil => exact hab
    case cons hx _ hi => exact hi (h.add hab hx)
  exact fold (h.lit 0)

variable {width : Nat}

theorem exact_wrapping : Simulates exact (wrapping width) fun n m => m = n % 2 ^ width where
  lit n       := rfl
  add h h'    := by simp only [wrapping, exact, h, h', ←Nat.add_mod]
  times _ h   := by simp only [wrapping, exact, h, Nat.mod_mul_mod]

theorem fit_of_le {m n : Nat} (h : m ≤ n) (hm : fit width m = none) : fit width n = none := by
  rw [fit] at hm ⊢
  split at hm
  case isTrue => cases hm
  case isFalse hlt => exact if_neg fun hn => hlt (h.trans_lt hn)

theorem eq_of_fit {m n : Nat} (h : fit width m = some n) : m = n := by
  rw [fit] at h
  split at h
  case isTrue => injection h
  case isFalse => cases h

-- An overflow on the way is one in the end.
theorem exact_checked : Simulates exact (checked width) fun n c => c = fit width n where
  lit n := rfl
  add {a a' b b'} h h' := by
    simp only [checked, exact, h, h']
    cases ha : fit width a
    case none => exact (fit_of_le (Nat.le_add_right _ _) ha).symm
    case some x =>
      cases ha' : fit width a'
      case none => exact (fit_of_le (Nat.le_add_left _ _) ha').symm
      case some x' =>
        rw [eq_of_fit ha, eq_of_fit ha']
        rfl
  times {a b k} hk h := by
    simp only [checked, exact, h]
    cases ha : fit width a
    case none => exact (fit_of_le (Nat.le_mul_of_pos_right _ hk) ha).symm
    case some x =>
      rw [eq_of_fit ha]
      rfl

theorem sum_exact (us : List Nat) : exact.sum us = us.sum := List.sum_eq_foldl.symm

theorem fit_isSome {n : Nat} : (fit width n).isSome ↔ n < 2 ^ width := by
  rw [fit]
  split <;> simp_all

end Arithmetic

end Width
