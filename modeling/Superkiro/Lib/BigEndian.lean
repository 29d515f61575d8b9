import Mathlib

-- Numbers as bytes, the most significant one first.
namespace BigEndian

-- The lowest bytes of a number.
def encode : Nat → Nat → List UInt8
  | 0, _     => []
  | n + 1, v => .ofNat (v / 256 ^ n) :: encode n v

def decode (bytes : List UInt8) : Nat := bytes.foldl (fun v b => v * 256 + b.toNat) 0

@[simp]
theorem length_encode : (encode n v).length = n := by
  induction n
  case zero => rfl
  case succ hi => simp [encode, hi]

theorem foldl_encode {v w : Nat} :
    (encode n v).foldl (fun v b => v * 256 + b.toNat) w = w * 256 ^ n + v % 256 ^ n := by
  induction n generalizing w
  case zero => simp [encode, Nat.mod_one]
  case succ n hi =>
    have h : v % 256 ^ (n + 1) = v / 256 ^ n % 256 * 256 ^ n + v % 256 ^ n := by
      rw [Nat.pow_succ, Nat.mod_mul, Nat.mul_comm, Nat.add_comm]
    simp only [encode, List.foldl_cons, hi, UInt8.toNat_ofNat', h]
    ring

@[simp]
theorem decode_encode : decode (encode n v) = v % 256 ^ n := by
  simp [decode, foldl_encode]

-- What was written is read back from the start of the bytes.
theorem decode_take (h : v < 256 ^ n) : decode ((encode n v ++ rest).take n) = v := by
  rw [List.take_left' length_encode, decode_encode, Nat.mod_eq_of_lt h]

theorem decode_concat : decode (bytes ++ [b]) = decode bytes * 256 + b.toNat := by
  simp [decode]

theorem decode_lt : decode bytes < 256 ^ bytes.length := by
  induction bytes using List.reverseRecOn
  case nil => decide
  case append_singleton bytes b hi =>
    have hb := b.toNat_lt
    rw [decode_concat, List.length_append, List.length_singleton, Nat.pow_succ]
    omega

-- Bytes are told apart by the number they are read as.
theorem decode_inj {xs ys : List UInt8} (hl : xs.length = ys.length) (h : decode xs = decode ys) :
    xs = ys := by
  induction xs using List.reverseRecOn generalizing ys
  case nil => exact (List.length_eq_zero_iff.mp hl.symm).symm
  case append_singleton xs b hi =>
    induction ys using List.reverseRecOn
    case nil => simp at hl
    case append_singleton ys b' _ =>
      have hb := b.toNat_lt
      have hb' := b'.toNat_lt
      rw [decode_concat, decode_concat] at h
      rw [List.length_append, List.length_append] at hl
      rw [hi (Nat.add_right_cancel hl) (by omega), UInt8.toNat_inj.mp (by omega : b.toNat = b'.toNat)]

end BigEndian
