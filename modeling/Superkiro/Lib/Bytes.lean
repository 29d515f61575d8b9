import Mathlib

-- Searching byte strings and taking parts of them, where a part that isn't there is an error.
namespace Bytes

def ascii (s : String) : List UInt8 := s.toList.map (·.toNat.toUInt8)

def isDigit (b : UInt8) : Bool := 48 ≤ b && b ≤ 57

def isAlphanumeric (b : UInt8) : Bool :=
  isDigit b || (65 ≤ b && b ≤ 90) || (97 ≤ b && b ≤ 122)

def isWhitespace (b : UInt8) : Bool := b = 32 || b = 9 || b = 10 || b = 12 || b = 13

def trimStart (bytes : List UInt8) : List UInt8 := bytes.dropWhile isWhitespace

-- Where a needle occurs first. It has at least one byte.
def find (needle : List UInt8) : List UInt8 → Option Nat
  | []      => none
  | b :: bs => if needle <+: b :: bs then some 0 else (find needle bs).map (· + 1)

-- Where a needle occurs last.
def rfind (needle : List UInt8) : List UInt8 → Option Nat
  | []      => none
  | b :: bs =>
    match rfind needle bs with
    | some i => some (i + 1)
    | none   => if needle <+: b :: bs then some 0 else none

def stripPrefix (start bytes : List UInt8) : Option (List UInt8) :=
  if start <+: bytes then some (bytes.drop start.length) else none

def from? (bytes : List UInt8) (start : Nat) : Option (List UInt8) :=
  if start ≤ bytes.length then some (bytes.drop start) else none

def to? (bytes : List UInt8) (stop : Nat) : Option (List UInt8) :=
  if stop ≤ bytes.length then some (bytes.take stop) else none

def slice? (bytes : List UInt8) (start stop : Nat) : Option (List UInt8) :=
  if start ≤ stop ∧ stop ≤ bytes.length then some ((bytes.take stop).drop start) else none

-- What `parse` makes of digits.
def parseUsize (digits : List UInt8) : Option Nat :=
  if digits = [] then none
  else (some (digits.foldl (fun n b => 10 * n + (b.toNat - 48)) 0)).filter (· < 2 ^ 64)

variable {needle bytes bs : List UInt8} {i start stop : Nat}

theorem from?_eq (h : start ≤ bytes.length) : from? bytes start = some (bytes.drop start) :=
  if_pos h

theorem to?_eq (h : stop ≤ bytes.length) : to? bytes stop = some (bytes.take stop) := if_pos h

theorem slice?_eq (h : start ≤ stop) (hl : stop ≤ bytes.length) :
    slice? bytes start stop = some ((bytes.take stop).drop start) :=
  if_pos ⟨h, hl⟩

theorem isPrefix_find (h : find needle bytes = some i) : needle <+: bytes.drop i := by
  induction bytes generalizing i
  case nil => cases h
  case cons b bs hi =>
    rw [find] at h
    split at h
    case isTrue hp =>
      injection h with h
      exact h ▸ hp
    case isFalse =>
      have ⟨j, hj, he⟩ := Option.map_eq_some_iff.mp h
      exact he ▸ hi hj

theorem find_le (h : find needle bytes = some i) (hn : needle ≠ []) :
    i + needle.length ≤ bytes.length := by
  have hl := (isPrefix_find h).length_le
  have := List.length_pos_of_ne_nil hn
  rw [List.length_drop] at hl
  omega

theorem rfind_lt (h : rfind needle bytes = some i) : i < bytes.length := by
  induction bytes generalizing i
  case nil => cases h
  case cons b bs hi =>
    rw [rfind] at h
    split at h
    case h_1 j hj =>
      injection h with h
      have := hi hj
      rw [List.length_cons]
      omega
    case h_2 =>
      split at h
      case isTrue =>
        injection h with h
        rw [←h]
        exact Nat.succ_pos _
      case isFalse => cases h

theorem length_trimStart (bytes : List UInt8) : (trimStart bytes).length ≤ bytes.length :=
  (List.dropWhile_suffix _).length_le

theorem drop_trimStart (bytes : List UInt8) :
    bytes.drop (bytes.length - (trimStart bytes).length) = trimStart bytes := by
  have h : bytes.takeWhile isWhitespace ++ trimStart bytes = bytes :=
    List.takeWhile_append_dropWhile
  have hl : bytes.length - (trimStart bytes).length = (bytes.takeWhile isWhitespace).length := by
    have := congrArg List.length h
    rw [List.length_append] at this
    omega
  rw [hl]
  nth_rewrite 2 [←h]
  rw [List.drop_left]

theorem stripPrefix_eq_some (h : stripPrefix needle bytes = some bs) : bytes = needle ++ bs := by
  rw [stripPrefix] at h
  split at h
  case isTrue hp =>
    injection h with h
    rw [←h]
    exact (List.prefix_iff_eq_append.mp hp).symm
  case isFalse => cases h

end Bytes
