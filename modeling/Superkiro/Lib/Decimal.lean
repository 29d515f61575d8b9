import Superkiro.Lib.Text

-- Numbers as they are written in decimal.
namespace Decimal

def digits? (cs : List Char) : Option Nat :=
  if cs ≠ [] ∧ cs.all Char.isDigit then some (Nat.ofDigitChars 10 cs 0) else none

def unsigned? (cs : List Char) : Option ℚ :=
  match cs.dropWhile (· ≠ '.') with
  | []            => (digits? cs).map (↑)
  | _ :: fraction => do
    let whole ← digits? (cs.takeWhile (· ≠ '.'))
    let part ← digits? fraction
    return whole + part / 10 ^ fraction.length

-- The number a text is a decimal of.
def value? (s : String) : Option ℚ :=
  match s.toList with
  | '-' :: cs => (unsigned? cs).map (-·)
  | cs        => unsigned? cs

variable {n : Nat} {cs : List Char}

theorem toList_toString (n : Nat) : (toString n).toList = Nat.toDigits 10 n := Nat.toList_repr

theorem isDigit_toDigits : ∀ c ∈ Nat.toDigits 10 n, c.isDigit := fun _ hc =>
  Nat.isDigit_of_mem_toDigits (by decide) (by decide) hc

theorem digits?_toDigits : digits? (Nat.toDigits 10 n) = some n := by
  have hd : (Nat.toDigits 10 n).all Char.isDigit := List.all_eq_true.mpr isDigit_toDigits
  rw [digits?, if_pos ⟨Nat.toDigits_ne_nil, hd⟩, Nat.ofDigitChars_ten_toDigits]

theorem ofDigitChars_lt (h : ∀ c ∈ cs, c.isDigit) :
    Nat.ofDigitChars 10 cs n < (n + 1) * 10 ^ cs.length := by
  induction cs generalizing n
  case nil => simp
  case cons c cs hi =>
    have ⟨hc, hcs⟩ := List.forall_mem_cons.mp h
    have hd : c.toNat - '0'.toNat < 10 := by
      simp only [Char.isDigit, ge_iff_le, Bool.and_eq_true, decide_eq_true_eq] at hc
      have := UInt32.le_iff_toNat_le.mp hc.right
      simp only [Char.toNat]
      change c.val.toNat ≤ 57 at this
      change c.val.toNat - 48 < 10
      omega
    rw [Nat.ofDigitChars_cons, List.length_cons, Nat.pow_succ']
    refine (hi hcs).trans_le ?_
    rw [← Nat.mul_assoc]
    exact Nat.mul_le_mul_right _ (by omega)

theorem ne_point_of_isDigit {c : Char} (h : c.isDigit) : c ≠ '.' := by
  intro hc
  subst hc
  revert h
  decide

theorem dropWhile_digits {ds : List Char} (h : ∀ c ∈ ds, c.isDigit) (rest : List Char) :
    (ds ++ rest).dropWhile (· ≠ '.') = rest.dropWhile (· ≠ '.') ∧
      (ds ++ rest).takeWhile (· ≠ '.') = ds ++ rest.takeWhile (· ≠ '.') := by
  have hp : ∀ c ∈ ds, decide (c ≠ '.') = true := fun c hc =>
    decide_eq_true (ne_point_of_isDigit (h c hc))
  exact ⟨List.dropWhile_append_of_pos hp, List.takeWhile_append_of_pos hp⟩

theorem unsigned?_whole : unsigned? (Nat.toDigits 10 n) = some (n : ℚ) := by
  have h := dropWhile_digits (isDigit_toDigits (n := n)) []
  rw [List.append_nil] at h
  rw [unsigned?, h.left]
  simp [digits?_toDigits]

theorem unsigned?_fraction {part : Nat} (h : digits? cs = some part) :
    unsigned? (Nat.toDigits 10 n ++ '.' :: cs) = some ((n : ℚ) + part / 10 ^ cs.length) := by
  have hd := dropWhile_digits (isDigit_toDigits (n := n)) ('.' :: cs)
  rw [unsigned?, hd.left, hd.right]
  simp [digits?_toDigits, h]

theorem trimmed_zeros (cs : List Char) : ∃ k,
    cs = (cs.reverse.dropWhile (· = '0')).reverse ++ List.replicate k '0' := by
  have hz : ∀ c ∈ cs.reverse.takeWhile (· = '0'), c = '0' := by
    intro c hc
    simpa using List.mem_takeWhile_imp hc
  use (cs.reverse.takeWhile (· = '0')).length
  have hr := List.eq_replicate_of_mem hz
  have hs := congrArg List.reverse (List.takeWhile_append_dropWhile (p := (· = '0')) (l := cs.reverse))
  rw [List.reverse_append, List.reverse_reverse] at hs
  conv_lhs => rw [← hs]
  congr 1
  rw [hr, List.reverse_replicate, List.length_replicate]

theorem toList_padded (h : (Nat.toDigits 10 n).length ≤ width) :
    ∃ k, (Text.padded width n).toList = List.replicate k '0' ++ Nat.toDigits 10 n ∧
      (Text.padded width n).toList.length = width := by
  have hl : (toString n).length = (Nat.toDigits 10 n).length := by
    rw [← toList_toString, String.length_toList]
  refine ⟨width - (Nat.toDigits 10 n).length, ?_, ?_⟩
  all_goals simp only [Text.padded, String.toList_append, String.toList_ofList, toList_toString, hl,
    List.length_append, List.length_replicate]
  omega

theorem isDigit_padded (h : n < 10 ^ width) (hw : 0 < width) :
    ∀ c ∈ (Text.padded width n).toList, c.isDigit := by
  intro c hc
  have ⟨k, hp, _⟩ := toList_padded ((Nat.length_toDigits_le_iff (by decide) hw).mpr h)
  rw [hp, List.mem_append] at hc
  obtain hc | hc := hc
  · rw [List.eq_of_mem_replicate hc]
    rfl
  · exact isDigit_toDigits c hc

theorem digits?_padded (h : n < 10 ^ width) (hw : 0 < width) :
    digits? (Text.padded width n).toList = some n ∧ (Text.padded width n).toList.length = width := by
  have ⟨k, hp, hl⟩ := toList_padded ((Nat.length_toDigits_le_iff (by decide) hw).mpr h)
  have hn : (Text.padded width n).toList ≠ [] := fun hn => by simp [hn] at hl; omega
  refine ⟨?_, hl⟩
  rw [digits?, if_pos ⟨hn, List.all_eq_true.mpr (isDigit_padded h hw)⟩, hp]
  simp [Nat.ofDigitChars_append]

-- The digits behind the point, without trailing zeros.
theorem fraction_digits (hn : n ≠ 0) (hl : n < 10 ^ 6) :
    ∃ part, digits? ((Text.padded 6 n).toList.reverse.dropWhile (· = '0')).reverse = some part ∧
      (part : ℚ) / 10 ^ ((Text.padded 6 n).toList.reverse.dropWhile (· = '0')).reverse.length =
        n / 1000000 := by
  have hd : (Nat.toDigits 10 n).length ≤ 6 :=
    (Nat.length_toDigits_le_iff (by decide) (by decide)).mpr hl
  have ⟨j, hp, hpl⟩ := toList_padded hd
  have ⟨k, ht⟩ := trimmed_zeros (Text.padded 6 n).toList
  generalize ((Text.padded 6 n).toList.reverse.dropWhile (· = '0')).reverse = cs at ht
  have hv : 10 ^ k * Nat.ofDigitChars 10 cs 0 = n := by
    have h := congrArg (Nat.ofDigitChars 10 · 0) (ht.symm.trans hp)
    simpa [Nat.ofDigitChars_append] using h
  have hlen : cs.length + k = 6 := by
    have h := congrArg List.length ht
    rw [hpl, List.length_append, List.length_replicate] at h
    exact h.symm
  have hc : ∀ c ∈ cs, c.isDigit := by
    intro c hc
    have hm : c ∈ (Text.padded 6 n).toList := ht ▸ List.mem_append_left _ hc
    rw [hp, List.mem_append] at hm
    obtain hm | hm := hm
    · rw [List.eq_of_mem_replicate hm]
      rfl
    · exact isDigit_toDigits c hm
  have hne : cs ≠ [] := by
    intro h
    rw [h] at hv
    simp at hv
    exact hn hv.symm
  refine ⟨Nat.ofDigitChars 10 cs 0, by rw [digits?, if_pos ⟨hne, List.all_eq_true.mpr hc⟩], ?_⟩
  have hq : (n : ℚ) = 10 ^ k * (Nat.ofDigitChars 10 cs 0 : ℕ) := by
    rw [← hv]
    push_cast
    rfl
  have hpow : (1000000 : ℚ) = 10 ^ cs.length * 10 ^ k := by
    rw [← pow_add, hlen]
    norm_num
  rw [hq, hpow]
  field_simp

theorem value?_signed {m : Int} (h : unsigned? cs = some (m.natAbs / 1000000 : ℚ))
    (hc : cs.head? ≠ some '-') :
    value? ((if m < 0 then "-" else "") ++ .ofList cs) = some (m / 1000000 : ℚ) := by
  by_cases hm : m < 0
  case pos =>
    have ha : ((m.natAbs : ℕ) : ℚ) = -(m : ℚ) := by
      rw [Nat.cast_natAbs, abs_of_neg hm]
      push_cast
      rfl
    simp [value?, hm, h, ha, neg_div]
  case neg =>
    have ha : ((m.natAbs : ℕ) : ℚ) = m := by
      rw [Nat.cast_natAbs, abs_of_nonneg (Int.not_lt.mp hm)]
    rw [ha] at h
    simp only [value?, hm, if_false, String.toList_append, String.toList_ofList]
    split
    case h_1 cs' hs =>
      have hs : cs = '-' :: cs' := hs
      rw [hs] at hc
      exact absurd rfl hc
    case h_2 => exact h

theorem value?_microDecimal (m : Int) : value? (Text.microDecimal m) = some (m / 1000000 : ℚ) := by
  have hh (rest : List Char) :
      (Nat.toDigits 10 (m.natAbs / 1000000) ++ rest).head? ≠ some '-' := by
    have hn : Nat.toDigits 10 (m.natAbs / 1000000) ≠ [] := Nat.toDigits_ne_nil
    have ⟨c, cs, hc⟩ := List.exists_cons_of_ne_nil hn
    have hd := isDigit_toDigits c (hc ▸ List.mem_cons_self)
    rw [hc, List.cons_append, List.head?_cons]
    intro h
    cases h
    revert hd
    decide
  have hsum : (m.natAbs : ℚ) = 1000000 * (m.natAbs / 1000000 : ℕ) + (m.natAbs % 1000000 : ℕ) := by
    exact_mod_cast (Nat.div_add_mod m.natAbs 1000000).symm
  unfold Text.microDecimal
  extract_lets sign whole fraction digits
  by_cases hf : fraction = 0
  case pos =>
    rw [if_pos hf]
    have hu : unsigned? (Nat.toDigits 10 whole) = some (m.natAbs / 1000000 : ℚ) := by
      rw [unsigned?_whole, hsum, show m.natAbs % 1000000 = 0 from hf]
      simp [whole]
    have h := value?_signed hu (by simpa using hh [])
    rwa [← toList_toString, String.ofList_toList] at h
  case neg =>
    rw [if_neg hf]
    have ⟨part, hp, hv⟩ := fraction_digits hf (Nat.mod_lt _ (by decide))
    have hu : unsigned? (Nat.toDigits 10 whole ++ '.' :: digits) = some (m.natAbs / 1000000 : ℚ) := by
      rw [unsigned?_fraction hp, hv, hsum]
      simp only [whole, fraction, Option.some.injEq]
      field_simp
    have h := value?_signed hu (hh _)
    rw [← toList_toString] at h
    have hs : String.ofList ((toString whole).toList ++ '.' :: digits) =
        toString whole ++ "." ++ .ofList digits := by
      apply String.toList_inj.mp
      simp
    rw [hs] at h
    rw [← h]
    apply congrArg
    apply String.toList_inj.mp
    simp [sign]

end Decimal
