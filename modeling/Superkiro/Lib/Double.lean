import Mathlib
import Superkiro.Lib.I64

-- What a program can do with double-precision floats, without saying how they round. The
-- arithmetic is any arithmetic; the only law concerns the cast back to an integer.
class F64 (F : Type) extends BEq F, Add F, Sub F, Mul F, Div F where
  ofInt    : Int → F
  lit      : ℚ → F
  lt       : F → F → Bool
  le       : F → F → Bool
  isFinite : F → Bool
  fmax     : F → F → F
  fabs     : F → F
  ceil     : F → F
  round    : F → F
  toI64    : F → I64
  ceil_pos : ∀ {x}, isFinite x = true → le x (lit 0) = false → 0 ≤ (toI64 (ceil x)).val

namespace F64

-- Exact rationals are floats that never round.
instance : F64 ℚ where
  ofInt i    := i
  lit q      := q
  lt x y     := decide (x < y)
  le x y     := decide (x ≤ y)
  isFinite _ := true
  fmax       := max
  fabs       := abs
  ceil x     := ⌈x⌉
  round x    := if 0 ≤ x then ⌊x + 1 / 2⌋ else ⌈x - 1 / 2⌉
  toI64 x    := I64.sat (if 0 ≤ x then ⌊x⌋ else ⌈x⌉)
  ceil_pos {x} _ h := by
    have hx : 0 < x := by simpa using h
    have hc : (0 : ℤ) < ⌈x⌉ := Int.ceil_pos.mpr hx
    have h₀ : (0 : ℚ) ≤ (⌈x⌉ : ℤ) := by exact_mod_cast hc.le
    simp only [I64.val_sat, h₀, if_true, Int.floor_intCast]
    omega

variable [F64 F]

-- `lo <= x <= hi`
def within (lo hi : ℚ) (x : F) : Bool := le (lit lo) x && le x (lit hi)

def i64Max : F := ofInt 9223372036854775807

-- A calculated amount as a bounded integer that isn't negative. Amounts that aren't numbers are
-- worth nothing.
def ceilNonnegativeToI64 (value : F) : I64 :=
  if !isFinite value || le value (lit 0) then 0
  else if le i64Max value then .maxValue
  else toI64 (ceil value)

theorem ceilNonnegativeToI64_nonneg (x : F) : 0 ≤ (ceilNonnegativeToI64 x).val := by
  unfold ceilNonnegativeToI64
  split
  case isTrue => simp
  case isFalse h =>
    simp only [Bool.or_eq_true, Bool.not_eq_true', not_or, Bool.not_eq_false] at h
    split
    case isTrue => simp
    case isFalse => exact ceil_pos h.left (Bool.eq_false_iff.mpr h.right)

end F64
