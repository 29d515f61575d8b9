import Superkiro.Lib.Utf8

-- Slices of texts by the offsets of their bytes. There is none where an offset is within a character.
namespace Slices

open String (utf8Len)

def sliceFrom : Nat → List Char → Option (List Char)
  | 0, cs          => some cs
  | _ + 1, []      => none
  | n + 1, c :: cs => if c.utf8Size ≤ n + 1 then sliceFrom (n + 1 - c.utf8Size) cs else none

def sliceTo : Nat → List Char → Option (List Char)
  | 0, _           => some []
  | _ + 1, []      => none
  | n + 1, c :: cs =>
    if c.utf8Size ≤ n + 1 then (sliceTo (n + 1 - c.utf8Size) cs).map (c :: ·) else none

def slice (start stop : Nat) (cs : List Char) : Option (List Char) :=
  if start ≤ stop then (sliceTo stop cs).bind (sliceFrom start) else none

variable {a b c : List Char}

theorem sliceFrom_append : sliceFrom (utf8Len a) (a ++ b) = some b := by
  induction a
  case nil => cases b <;> rfl
  case cons d ds hi =>
    have hd := d.utf8Size_pos
    obtain ⟨n, hn⟩ := Nat.exists_eq_add_one.mpr (show 0 < utf8Len (d :: ds) by
      rw [String.utf8Len_cons]; omega)
    rw [hn, List.cons_append, sliceFrom, ← hn, String.utf8Len_cons, if_pos (by omega),
      Nat.add_sub_cancel, hi]

theorem sliceTo_append : sliceTo (utf8Len a) (a ++ b) = some a := by
  induction a
  case nil => cases b <;> rfl
  case cons d ds hi =>
    have hd := d.utf8Size_pos
    obtain ⟨n, hn⟩ := Nat.exists_eq_add_one.mpr (show 0 < utf8Len (d :: ds) by
      rw [String.utf8Len_cons]; omega)
    rw [hn, List.cons_append, sliceTo, ← hn, String.utf8Len_cons, if_pos (by omega),
      Nat.add_sub_cancel, hi]
    rfl

theorem slice_append : slice (utf8Len a) (utf8Len (a ++ b)) (a ++ b ++ c) = some b := by
  rw [slice, if_pos (by rw [String.utf8Len_append]; omega), sliceTo_append]
  exact sliceFrom_append

-- A character that's written as one byte of some.
def oneOf (p : UInt8 → Bool) (c : Char) : Bool := c.utf8Size = 1 && p c.val.toUInt8

theorem le_or (x y : UInt8) : y ≤ x ||| y := by
  rw [UInt8.le_iff_toNat_le, UInt8.toNat_or]
  exact Nat.right_le_or

-- All bytes of other characters are outside of ASCII.
theorem le_of_mem_utf8EncodeChar {c : Char} {b : UInt8} (hc : c.utf8Size ≠ 1)
    (hb : b ∈ String.utf8EncodeChar c) : 128 ≤ b := by
  have h₁ : (128 : UInt8) ≤ 0x80 := by decide
  have h₂ : (128 : UInt8) ≤ 0xc0 := by decide
  have h₃ : (128 : UInt8) ≤ 0xe0 := by decide
  have h₄ : (128 : UInt8) ≤ 0xf0 := by decide
  obtain h | h | h | h := c.utf8Size_eq
  · exact absurd h hc
  · rw [String.utf8EncodeChar_eq_cons_cons h] at hb
    simp only [List.mem_cons, List.not_mem_nil, or_false] at hb
    rcases hb with hb | hb <;> subst hb
    · exact UInt8.le_trans h₂ (le_or _ _)
    · exact UInt8.le_trans h₁ (le_or _ _)
  · rw [String.utf8EncodeChar_eq_cons_cons_cons h] at hb
    simp only [List.mem_cons, List.not_mem_nil, or_false] at hb
    rcases hb with hb | hb | hb <;> subst hb
    · exact UInt8.le_trans h₃ (le_or _ _)
    · exact UInt8.le_trans h₁ (le_or _ _)
    · exact UInt8.le_trans h₁ (le_or _ _)
  · rw [String.utf8EncodeChar_eq_cons_cons_cons_cons h] at hb
    simp only [List.mem_cons, List.not_mem_nil, or_false] at hb
    rcases hb with hb | hb | hb | hb <;> subst hb
    · exact UInt8.le_trans h₄ (le_or _ _)
    · exact UInt8.le_trans h₁ (le_or _ _)
    · exact UInt8.le_trans h₁ (le_or _ _)
    · exact UInt8.le_trans h₁ (le_or _ _)

variable {p : UInt8 → Bool} {cs : List Char}

theorem utf8EncodeChar_oneOf {c : Char} (hc : oneOf p c) :
    ∃ b, String.utf8EncodeChar c = [b] ∧ p b := by
  rw [oneOf, Bool.and_eq_true, decide_eq_true_eq] at hc
  exact ⟨_, String.utf8EncodeChar_eq_singleton hc.left, hc.right⟩

theorem not_mem_oneOf {c : Char} (hp : ∀ b, p b → b < 128) (hc : ¬oneOf p c) :
    ∀ b ∈ String.utf8EncodeChar c, ¬p b := by
  intro b hb h
  rw [oneOf, Bool.and_eq_true, decide_eq_true_eq, not_and] at hc
  by_cases h₁ : c.utf8Size = 1
  case pos =>
    rw [String.utf8EncodeChar_eq_singleton h₁, List.mem_singleton] at hb
    exact hc h₁ (hb ▸ h)
  case neg => exact absurd (hp b h) (UInt8.not_lt.mpr (le_of_mem_utf8EncodeChar h₁ hb))

theorem takeWhile_append_of_not {bytes rest : List UInt8} (hn : bytes ≠ [])
    (h : ∀ b ∈ bytes, ¬p b) : (bytes ++ rest).takeWhile p = [] := by
  cases bytes
  case nil => exact absurd rfl hn
  case cons b bs =>
    rw [List.cons_append, List.takeWhile_cons_of_neg (h b List.mem_cons_self)]

-- A count of the leading bytes is one of characters.
theorem length_takeWhile_encode (hp : ∀ b, p b → b < 128) :
    ((Utf8.encode cs).takeWhile p).length = (cs.takeWhile (oneOf p)).length := by
  induction cs
  case nil => rfl
  case cons c cs hi =>
    rw [Utf8.encode_cons]
    by_cases hc : oneOf p c
    case pos =>
      have ⟨b, hb, hpb⟩ := utf8EncodeChar_oneOf hc
      rw [hb, List.singleton_append, List.takeWhile_cons_of_pos hpb,
        List.takeWhile_cons_of_pos hc, List.length_cons, List.length_cons, hi]
    case neg =>
      rw [takeWhile_append_of_not (by simp) (not_mem_oneOf hp hc),
        List.takeWhile_cons_of_neg hc, List.length_nil, List.length_nil]

theorem length_takeWhile_reverse (hp : ∀ b, p b → b < 128) :
    ((Utf8.encode cs).reverse.takeWhile p).length = (cs.reverse.takeWhile (oneOf p)).length := by
  induction cs using List.reverseRecOn
  case nil => rfl
  case append_singleton cs c hi =>
    have he : Utf8.encode (cs ++ [c]) = Utf8.encode cs ++ String.utf8EncodeChar c := by
      simp [Utf8.encode]
    rw [he, List.reverse_append, List.reverse_append, List.reverse_singleton,
      List.singleton_append]
    by_cases hc : oneOf p c
    case pos =>
      obtain ⟨b, hb, hpb⟩ := utf8EncodeChar_oneOf hc
      rw [hb, List.reverse_singleton, List.singleton_append, List.takeWhile_cons_of_pos hpb,
        List.takeWhile_cons_of_pos hc, List.length_cons, List.length_cons, hi]
    case neg =>
      rw [takeWhile_append_of_not (by simp)
          (fun b hb => not_mem_oneOf hp hc b (List.mem_reverse.mp hb)),
        List.takeWhile_cons_of_neg hc, List.length_nil, List.length_nil]

theorem utf8Len_oneOf (h : ∀ c ∈ cs, oneOf p c) : utf8Len cs = cs.length := by
  induction cs
  case nil => rfl
  case cons c cs hi =>
    have hc := h c List.mem_cons_self
    rw [oneOf, Bool.and_eq_true, decide_eq_true_eq] at hc
    rw [String.utf8Len_cons, hc.left, List.length_cons,
      hi fun d hd => h d (List.mem_cons_of_mem _ hd)]

end Slices
