import Superkiro.Lib.Text

-- What trimming leaves of a text.
namespace Text

variable {l r : List Char} {c : Char}

-- A text without spaces around it.
structure Trimmed (l : List Char) : Prop where
  start : trimStart l = l
  stop  : trimEnd l = l

theorem trimStart_cons (h : isWhitespace c = false) : trimStart (c :: l) = c :: l := by
  simp [trimStart, h]

theorem trimStart_append (h : isWhitespace c = false) :
    trimStart (l ++ c :: r) = trimStart l ++ c :: r := by
  induction l
  case nil => simp [trimStart, h]
  case cons d l hi =>
    by_cases hd : isWhitespace d
    case pos => simpa [trimStart, hd] using hi
    case neg => simp [trimStart, hd]

theorem trimEnd_append (h : isWhitespace c = false) :
    trimEnd (l ++ c :: r) = l ++ c :: trimEnd r := by
  have hs := trimStart_append (l := r.reverse) (r := l.reverse) h
  rw [trimStart, trimStart] at hs
  simp [trimEnd, hs]

theorem trimStart_suffix : trimStart l <:+ l := List.dropWhile_suffix _

theorem trimStart_trimStart : trimStart (trimStart l) = trimStart l :=
  List.dropWhile_idempotent _ _

theorem trimEnd_trimEnd : trimEnd (trimEnd l) = trimEnd l := List.rdropWhile_idempotent _ _

-- What a text ends with has spaces at its end only if the text has.
theorem trimEnd_of_suffix (h : trimEnd l = l) (hs : r <:+ l) : trimEnd r = r := by
  have hl := List.rdropWhile_eq_self_iff.mp h
  refine List.rdropWhile_eq_self_iff.mpr fun hr => ?_
  rw [hs.getLast hr]
  exact hl _

theorem trimStart_trimEnd : trimStart (trimEnd l) = trimEnd (trimStart l) := by
  by_cases h : ∀ c ∈ l, isWhitespace c
  case pos =>
    have hs : trimStart l = [] := List.dropWhile_eq_nil_iff.mpr h
    have he : trimEnd l = [] := List.rdropWhile_eq_nil_iff.mpr h
    rw [hs, he]
    rfl
  case neg =>
    simp only [not_forall, Bool.not_eq_true] at h
    have ⟨c, hm, hc⟩ := h
    have ⟨a, b, hl⟩ := List.append_of_mem hm
    rw [hl, trimEnd_append hc, trimStart_append hc, trimStart_append hc, trimEnd_append hc]

theorem Trimmed.of_trimStart (h : trimEnd l = l) : Trimmed (trimStart l) :=
  ⟨trimStart_trimStart, trimEnd_of_suffix h trimStart_suffix⟩

theorem Trimmed.trim (h : Trimmed l) : Text.trim (.ofList l) = .ofList l := by
  rw [Text.trim, String.toList_ofList, h.start, h.stop]

end Text
