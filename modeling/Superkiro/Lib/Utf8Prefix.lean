import Superkiro.Lib.Utf8

-- Text that arrives in pieces: the characters that are there, and the bytes that aren't one yet.
namespace Utf8

-- Whether bytes that begin with no character are the start of one that isn't there yet.
def unfinished : List UInt8 → Bool
  | [lead]                => 0xc2 ≤ lead && lead ≤ 0xf4
  | [lead, second]        => begins lead second
  | [lead, second, third] => begins lead second && 0xf0 ≤ lead && isContinuation third
  | _                     => false

-- The characters the bytes begin with, and the bytes after them, with one step for each.
def read : Nat → List UInt8 → List Char × List UInt8
  | 0, bytes         => ([], bytes)
  | steps + 1, bytes =>
    match decodeChar? bytes with
    | some c => (c :: (read steps (bytes.drop c.utf8Size)).1, (read steps (bytes.drop c.utf8Size)).2)
    | none   => ([], bytes)

-- `from_utf8`: the bytes are text when none is left. Otherwise the text ends in the middle of a
-- character when the bytes left are unfinished, and is invalid when they aren't.
def fromUtf8 (bytes : List UInt8) : List Char × List UInt8 := read bytes.length bytes

variable {bytes rest more : List UInt8} {c : Char} {cs : List Char}

@[simp]
theorem decodeChar?_nil : decodeChar? [] = none := by
  cases h : decodeChar? []
  case none => rfl
  case some c =>
    have h := congrArg List.length (eq_of_decodeChar? h)
    have hc := c.utf8Size_pos
    simp at h
    omega

theorem encode_append : encode (cs ++ cs') = encode cs ++ encode cs' := List.flatMap_append

theorem read_encode (h : decodeChar? rest = none) (hn : (encode cs).length ≤ n) :
    read n (encode cs ++ rest) = (cs, rest) := by
  induction cs generalizing n
  case nil => cases n <;> simp [read, h]
  case cons c cs hi =>
    have hc := c.utf8Size_pos
    have hl : (String.utf8EncodeChar c).length = c.utf8Size := String.length_utf8EncodeChar c
    rw [encode_cons, List.length_append] at hn
    cases n
    case zero => omega
    case succ n =>
      have hd : (String.utf8EncodeChar c ++ (encode cs ++ rest)).drop c.utf8Size = encode cs ++ rest := by
        rw [← hl, List.drop_left]
      have hi := hi (n := n) (by omega)
      rw [encode_cons, List.append_assoc, read, decodeChar?_encode]
      simp only [hd, hi]

theorem encode_read : encode (read n bytes).1 ++ (read n bytes).2 = bytes := by
  induction n generalizing bytes
  case zero => rfl
  case succ n hi =>
    cases h : decodeChar? bytes
    case none => simp [read, h]
    case some c =>
      simp only [read, h, encode_cons, List.append_assoc, hi]
      exact (eq_of_decodeChar? h).symm

theorem decodeChar?_read (h : bytes.length ≤ n) : decodeChar? (read n bytes).2 = none := by
  induction n generalizing bytes
  case zero => simp [List.eq_nil_of_length_eq_zero (Nat.le_zero.mp h), read]
  case succ n hi =>
    cases hd : decodeChar? bytes
    case none => simp [read, hd]
    case some c =>
      have hc := c.utf8Size_pos
      simp only [read, hd]
      exact hi (by rw [List.length_drop]; omega)

theorem encode_fromUtf8 (bytes : List UInt8) : encode (fromUtf8 bytes).1 ++ (fromUtf8 bytes).2 = bytes := encode_read

theorem decodeChar?_fromUtf8 : decodeChar? (fromUtf8 bytes).2 = none := decodeChar?_read (le_refl _)

theorem fromUtf8_eq (h : decodeChar? rest = none) : fromUtf8 (encode cs ++ rest) = (cs, rest) :=
  read_encode h (by simp)

-- What isn't a character yet is read with what comes after it.
theorem fromUtf8_append : fromUtf8 (bytes ++ more) =
    ((fromUtf8 bytes).1 ++ (fromUtf8 ((fromUtf8 bytes).2 ++ more)).1,
      (fromUtf8 ((fromUtf8 bytes).2 ++ more)).2) := by
  have h : bytes ++ more = encode ((fromUtf8 bytes).1 ++ (fromUtf8 ((fromUtf8 bytes).2 ++ more)).1) ++
      (fromUtf8 ((fromUtf8 bytes).2 ++ more)).2 := by
    rw [encode_append, List.append_assoc, encode_fromUtf8, ← List.append_assoc, encode_fromUtf8]
  rw [h]
  exact fromUtf8_eq decodeChar?_fromUtf8

theorem isContinuation_iff : ∀ {b : UInt8}, isContinuation b ↔ 0x80 ≤ b.toNat ∧ b.toNat < 0xc0 := by
  decide +kernel

theorem begins_iff {lead second : UInt8} : begins lead second ↔
    (lead.toNat = 0xe0 ∧ 0xa0 ≤ second.toNat ∧ second.toNat ≤ 0xbf) ∨
    (lead.toNat = 0xed ∧ 0x80 ≤ second.toNat ∧ second.toNat ≤ 0x9f) ∨
    (lead.toNat = 0xf0 ∧ 0x90 ≤ second.toNat ∧ second.toNat ≤ 0xbf) ∨
    (lead.toNat = 0xf4 ∧ 0x80 ≤ second.toNat ∧ second.toNat ≤ 0x8f) ∨
    (0xe1 ≤ lead.toNat ∧ lead.toNat ≤ 0xf3 ∧ lead.toNat ≠ 0xed ∧ lead.toNat ≠ 0xf0 ∧
      0x80 ≤ second.toNat ∧ second.toNat < 0xc0) := by
  have eq {b n : UInt8} : (b == n) = true ↔ b.toNat = n.toNat := by
    rw [beq_iff_eq, UInt8.toNat_inj]
  unfold begins
  simp only [eq, UInt8.reduceToNat]
  split
  case isTrue => simp [UInt8.le_iff_toNat_le]; omega
  case isFalse =>
    split
    case isTrue => simp [UInt8.le_iff_toNat_le]; omega
    case isFalse =>
      split
      case isTrue => simp [UInt8.le_iff_toNat_le]; omega
      case isFalse =>
        split
        case isTrue => simp [UInt8.le_iff_toNat_le]; omega
        case isFalse => simp [UInt8.le_iff_toNat_le, isContinuation_iff]; omega

theorem toNat_ofNat (h : n < 256) : (UInt8.ofNat n).toNat = n := by
  rw [UInt8.toNat_ofNat']
  exact Nat.mod_eq_of_lt h

theorem unfinished_lead {lead : UInt8} :
    unfinished [lead] ↔ 0xc2 ≤ lead.toNat ∧ lead.toNat ≤ 0xf4 := by
  simp [unfinished, UInt8.le_iff_toNat_le]

-- Bytes that are unfinished wherever they are cut.
inductive Encoded : List UInt8 → Prop
  | one   : Encoded [x]
  | two   : unfinished [x] → Encoded [x, y]
  | three : unfinished [x] → unfinished [x, y] → Encoded [x, y, z]
  | four  : unfinished [x] → unfinished [x, y] → unfinished [x, y, z] → Encoded [x, y, z, t]

theorem encoded (c : Char) : Encoded (String.utf8EncodeChar c) := by
  have hv : c.val.toNat < 0xd800 ∨ (0xdfff < c.val.toNat ∧ c.val.toNat < 0x110000) := c.valid
  unfold String.utf8EncodeChar
  generalize c.val.toNat = v at hv
  dsimp only
  have lead {n : Nat} (h : 0xc2 ≤ n ∧ n ≤ 0xf4) : unfinished [UInt8.ofNat n] := by
    rwa [unfinished_lead, toNat_ofNat (by omega)]
  split
  case isTrue => exact .one
  case isFalse =>
    split
    case isTrue => exact .two (lead (by omega))
    case isFalse =>
      split
      case isTrue =>
        refine .three (lead (by omega)) ?_
        rw [unfinished, begins_iff, toNat_ofNat (by omega), toNat_ofNat (by omega)]
        omega
      case isFalse =>
        have hb : begins (UInt8.ofNat (v / 262144 % 8 + 240)) (UInt8.ofNat (v / 4096 % 64 + 128)) := by
          rw [begins_iff, toNat_ofNat (by omega), toNat_ofNat (by omega)]
          omega
        refine .four (lead (by omega)) hb ?_
        rw [unfinished, hb, Bool.true_and, Bool.and_eq_true, isContinuation_iff, decide_eq_true_eq,
          UInt8.le_iff_toNat_le, toNat_ofNat (by omega), toNat_ofNat (by omega)]
        simp only [UInt8.reduceToNat]
        omega

-- Where a character's bytes are cut, they are unfinished.
theorem unfinished_of_initial (h : rest ++ more = String.utf8EncodeChar c) (hr : rest ≠ [])
    (hm : more ≠ []) : unfinished rest := by
  have he := h ▸ encoded c
  match rest, more, hr, hm with
  | [x], _ :: _, _, _                   => cases he <;> assumption
  | [x, y], _ :: _, _, _                => cases he <;> assumption
  | [x, y, z], _ :: _, _, _             => cases he; assumption
  | [_, _, _, _], _ :: _, _, _          => cases he
  | _ :: _ :: _ :: _ :: _ :: _, _, _, _ => cases he

theorem lead_of_begins {lead second : UInt8} (h : begins lead second) :
    0xc2 ≤ lead.toNat ∧ lead.toNat ≤ 0xf4 := by
  have h := begins_iff.mp h
  omega

theorem unfinished_append (h : unfinished (rest ++ more)) (hr : rest ≠ []) : unfinished rest := by
  match rest, more, hr with
  | [x], [], _           => exact h
  | [x], [y], _          => exact unfinished_lead.mpr (lead_of_begins h)
  | [x], [y, z], _       =>
    simp only [List.cons_append, List.nil_append, unfinished, Bool.and_eq_true] at h
    exact unfinished_lead.mpr (lead_of_begins h.left.left)
  | [x, y], [], _        => exact h
  | [x, y], [z], _       =>
    simp only [List.cons_append, List.nil_append, unfinished, Bool.and_eq_true] at h ⊢
    exact h.left.left
  | [x, y, z], [], _     => exact h
  | [x], _ :: _ :: _ :: _, _ => cases h
  | [x, y], _ :: _ :: _, _ => cases h
  | [x, y, z], _ :: _, _ => cases h
  | _ :: _ :: _ :: _ :: _, _, _ => cases h

-- What is neither a character nor the start of one stays so.
theorem invalid_append (hr : rest ≠ []) (h : decodeChar? rest = none) (hu : unfinished rest = false) :
    decodeChar? (rest ++ more) = none ∧ unfinished (rest ++ more) = false := by
  constructor
  case right =>
    rw [← Bool.not_eq_true] at hu ⊢
    exact fun h => hu (unfinished_append h hr)
  case left =>
    cases hd : decodeChar? (rest ++ more)
    case none => rfl
    case some c =>
      have he := eq_of_decodeChar? hd
      cases List.append_eq_append_iff.mp he
      case inl ht =>
        have ⟨t, hs, _⟩ := ht
        by_cases hn : t = []
        case pos =>
          rw [hn, List.append_nil] at hs
          rw [← hs, ← List.append_nil (String.utf8EncodeChar c), decodeChar?_encode] at h
          cases h
        case neg => rw [unfinished_of_initial hs.symm hr hn] at hu; cases hu
      case inr ht =>
        have ⟨t, hs, _⟩ := ht
        rw [hs, decodeChar?_encode] at h
        cases h

end Utf8
