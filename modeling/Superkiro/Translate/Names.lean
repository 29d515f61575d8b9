import Superkiro.Translate.Registry

namespace Translate

-- Names that are shortened to the same name, or one of which the other is shortened to.
def Clash (a b : String) : Prop :=
  (isSafe a = false ∧ isSafe b = false ∧ sanitizedPrefix a = sanitizedPrefix b ∧
    Wire.crc32 a.utf8 = Wire.crc32 b.utf8) ∨
  (isSafe a = false ∧ isSafe b ∧ b = sanitizedPrefix a ++ "_" ++ hex8 (Wire.crc32 a.utf8)) ∨
  (isSafe b = false ∧ isSafe a ∧ a = sanitizedPrefix b ++ "_" ++ hex8 (Wire.crc32 b.utf8))

theorem hexDigit_injective : ∀ m n : Fin 16, hexDigit m = hexDigit n → m = n := by decide

theorem isNameChar_hexDigit : ∀ n : Fin 16, isNameChar (hexDigit n) := by decide

theorem hex8_injective : Function.Injective hex8 := by
  intro m n h
  have h := congrArg String.toList h
  simp only [hex8, String.toList_ofList, List.map_inj_left, List.mem_range] at h
  have hd {i : Nat} (hi : i < 8) : m.toNat / 16 ^ (7 - i) % 16 = n.toNat / 16 ^ (7 - i) % 16 := by
    have hm : m.toNat / 16 ^ (7 - i) % 16 < 16 := Nat.mod_lt _ (by decide)
    have hn : n.toNat / 16 ^ (7 - i) % 16 < 16 := Nat.mod_lt _ (by decide)
    exact congrArg Fin.val (hexDigit_injective ⟨_, hm⟩ ⟨_, hn⟩ (h i hi))
  have h₀ := hd (show 0 < 8 by decide)
  have h₁ := hd (show 1 < 8 by decide)
  have h₂ := hd (show 2 < 8 by decide)
  have h₃ := hd (show 3 < 8 by decide)
  have h₄ := hd (show 4 < 8 by decide)
  have h₅ := hd (show 5 < 8 by decide)
  have h₆ := hd (show 6 < 8 by decide)
  have h₇ := hd (show 7 < 8 by decide)
  have hm := m.toNat_lt
  have hn := n.toNat_lt
  apply UInt32.toNat_inj.mp
  norm_num at h₀ h₁ h₂ h₃ h₄ h₅ h₆ h₇
  omega

theorem length_hex8 : (hex8 n).toList.length = 8 := by
  simp [hex8]

theorem shortened_eq_iff : shortened a = shortened b ↔
    sanitizedPrefix a = sanitizedPrefix b ∧ Wire.crc32 a.utf8 = Wire.crc32 b.utf8 := by
  constructor
  case mp =>
    intro h
    have h := congrArg String.toList h
    simp only [shortened, String.toList_append] at h
    have ⟨hp, hc⟩ := List.append_inj' h (by simp only [length_hex8])
    have hp := List.append_inj_left' hp rfl
    exact ⟨String.toList_inj.mp hp, hex8_injective (String.toList_inj.mp hc)⟩
  case mpr =>
    intro ⟨hp, hc⟩
    rw [shortened, shortened, hp, hc]

theorem safeName_eq_iff (h : a ≠ b) : safeName a = safeName b ↔ Clash a b := by
  unfold safeName Clash
  cases ha : isSafe a <;> cases hb : isSafe b
  case false.false => simp [shortened_eq_iff]
  case false.true => simp [shortened, eq_comm]
  case true.false => simp [shortened]
  case true.true => simp [h]

-- One to 64 characters of what providers take.
def IsProviderName (name : String) : Prop :=
  1 ≤ name.toList.length ∧ name.toList.length ≤ maxToolNameLen ∧ name.toList.all isNameChar

theorem length_le_utf8Len (cs : List Char) : cs.length ≤ String.utf8Len cs := by
  induction cs
  case nil => simp
  case cons c cs hi =>
    have := c.utf8Size_pos
    simp only [List.length_cons, String.utf8Len_cons]
    omega

theorem length_le_len (s : String) : s.toList.length ≤ Text.len s := by
  have h := length_le_utf8Len s.toList
  rwa [← String.utf8ByteSize_ofList, String.ofList_toList] at h

theorem isNameChar_sanitized (c : Char) : isNameChar (if isWordChar c then c else '_') := by
  split
  case isTrue h => simp [isNameChar, h]
  case isFalse => decide

theorem shortened_isProviderName (name : String) : IsProviderName (shortened name) := by
  have hl : (shortened name).toList.length = min 32 name.toList.length + 1 + 8 := by
    simp [shortened, sanitizedPrefix, hex8]
  have hc : (shortened name).toList.all isNameChar := by
    simp only [shortened, sanitizedPrefix, hex8, String.toList_append, String.toList_ofList,
      List.all_append, List.all_map, Bool.and_eq_true, List.all_eq_true]
    refine ⟨⟨fun c _ => isNameChar_sanitized c, by simp [isNameChar, isWordChar]⟩, fun i _ => ?_⟩
    exact isNameChar_hexDigit ⟨_, Nat.mod_lt _ (by decide)⟩
  refine ⟨by omega, ?_, hc⟩
  simp only [maxToolNameLen]
  omega

theorem safeName_isProviderName (h : name ≠ "") : IsProviderName (safeName name) := by
  unfold safeName
  split
  case isFalse => exact shortened_isProviderName name
  case isTrue hs =>
    simp only [isSafe, Bool.and_eq_true, decide_eq_true_eq] at hs
    refine ⟨?_, (length_le_len name).trans hs.left, hs.right⟩
    cases hn : name.toList
    case nil => exact absurd (String.toList_eq_nil_iff.mp hn) h
    case cons => simp

namespace ToolRegistry

-- What a registry holds for the names registered in it.
structure Holds (r : ToolRegistry) (names : List String) : Prop where
  given    : ∀ n s, r.longToShort.lookup n = some s ↔ n ∈ names ∧ s = safeName n
  restored : ∀ n, n ∈ names → ∃ m ∈ names, safeName m = safeName n ∧
    r.shortToLong.lookup (safeName n) = some m

theorem holds_empty : Holds {} [] := ⟨by simp, by simp⟩

variable {r : ToolRegistry} {names : List String} {name : String}

theorem Holds.register_fst (h : r.Holds names) :
    (r.register name).1 = safeName name := by
  unfold register
  split
  case h_1 hl => exact ((h.given _ _).mp hl).right
  case h_2 => rfl

theorem Holds.register (h : r.Holds names) :
    (r.register name).2.Holds (names ++ [name]) := by
  unfold ToolRegistry.register
  split
  case h_1 hl =>
    have hm := ((h.given _ _).mp hl).left
    have he {n} : n ∈ names ++ [name] ↔ n ∈ names := by
      simp only [List.mem_append, List.mem_singleton, or_iff_left_iff_imp]
      rintro rfl
      exact hm
    constructor
    case given => simp only [he, h.given, implies_true]
    case restored =>
      intro n hn
      have ⟨m, hm, hr⟩ := h.restored n (he.mp hn)
      exact ⟨m, he.mpr hm, hr⟩
  case h_2 hl =>
    constructor
    case given =>
      intro n s
      simp only [AList.lookup_insert_iff, h.given, List.mem_append, List.mem_singleton]
      by_cases hn : n = name
      case pos => simp [hn, eq_comm]
      case neg => simp [hn]
    case restored =>
      intro n hn
      by_cases hs : safeName n = safeName name
      case pos => exact ⟨name, by simp, hs.symm, by rw [hs, AList.lookup_insert]⟩
      case neg =>
        have hn : n ∈ names := by
          simp only [List.mem_append, List.mem_singleton] at hn
          exact hn.resolve_right fun h => hs (h ▸ rfl)
        have ⟨m, hm, he, hr⟩ := h.restored n hn
        exact ⟨m, by simp [hm], he, AList.lookup_insert_iff.mpr (.inr ⟨hs, hr⟩)⟩

theorem Holds.registerAll (h : r.Holds names) :
    (r.registerAll more).Holds (names ++ more) := by
  induction more generalizing r names
  case nil => simpa [ToolRegistry.registerAll] using h
  case cons name more hi =>
    have hr := hi (@Holds.register r names name h)
    rwa [List.append_assoc] at hr

theorem holds_registerAll (names : List String) : (({} : ToolRegistry).registerAll names).Holds names :=
  holds_empty.registerAll

-- The name a tool is given when some were registered before it.
def given (before : List String) (name : String) : String :=
  ((({} : ToolRegistry).registerAll before).register name).1

theorem given_eq : given before name = safeName name := (holds_registerAll before).register_fst

-- All tools of a request can be called under the names they are given.
structure Restores (names : List String) : Prop where
  valid    : ∀ {before name after}, names = before ++ name :: after → name ≠ "" →
    IsProviderName (given before name)
  distinct : ∀ {before name after before' name' after'}, names = before ++ name :: after →
    names = before' ++ name' :: after' → name ≠ name' → given before name ≠ given before' name'
  restored : ∀ {before name after}, names = before ++ name :: after →
    (({} : ToolRegistry).registerAll names).restore (given before name) = name

end ToolRegistry

-- Tools can be called exactly when none of their names clash.
theorem tool_names_restored (names : List String) :
    ToolRegistry.Restores names ↔ ∀ a ∈ names, ∀ b ∈ names, a ≠ b → ¬ Clash a b := by
  constructor
  case mp =>
    intro h a ha b hb hn hc
    have ⟨_, _, ha⟩ := List.append_of_mem ha
    have ⟨_, _, hb⟩ := List.append_of_mem hb
    apply h.distinct ha hb hn
    rw [ToolRegistry.given_eq, ToolRegistry.given_eq]
    exact (safeName_eq_iff hn).mpr hc
  case mpr =>
    intro h
    constructor
    case valid =>
      intro before name after _ hn
      rw [ToolRegistry.given_eq]
      exact safeName_isProviderName hn
    case distinct =>
      intro before a after before' b after' ha hb hn he
      rw [ToolRegistry.given_eq, ToolRegistry.given_eq] at he
      exact h a (by simp [ha]) b (by simp [hb]) hn ((safeName_eq_iff hn).mp he)
    case restored =>
      intro before name after hn
      have hm : name ∈ names := by simp [hn]
      have ⟨m, hm', he, hr⟩ := (ToolRegistry.holds_registerAll names).restored name hm
      rw [ToolRegistry.given_eq, ToolRegistry.restore, hr, Option.getD_some]
      by_contra hne
      exact h m hm' name hm hne ((safeName_eq_iff hne).mp he)

-- A tool that's named what another one's name is shortened to takes its place.
theorem tool_names_lost : ¬ ToolRegistry.Restores ["a.b", "a_b_1eef715d"] := by
  intro h
  have h := @h.distinct [] "a.b" ["a_b_1eef715d"] ["a.b"] "a_b_1eef715d" [] rfl rfl (by decide)
  apply h
  decide +kernel

end Translate
