import Mathlib

-- What folds know of the elements that they have gone through.
namespace List

variable {α β : Type} {P : List α → β → Prop} {l : List α} {b : β}

theorem foldl_of_step {f : β → α → β} (hs : ∀ seen b, ∀ a ∈ l, P seen b → P (seen ++ [a]) (f b a))
    (h : P [] b) : P l (l.foldl f b) := by
  suffices hg : ∀ rest seen b, rest ⊆ l → P seen b → P (seen ++ rest) (rest.foldl f b) from
    hg l [] b (Subset.refl _) h
  intro rest
  induction rest
  case nil => exact fun seen b _ hb => (append_nil seen).symm ▸ hb
  case cons a rest hi =>
    intro seen b hm hb
    have hn := hi (seen ++ [a]) (f b a) (subset_of_cons_subset hm)
      (hs seen b a (hm mem_cons_self) hb)
    rwa [append_assoc] at hn

-- A fold that could stop goes through a list where each of its steps goes on.
theorem foldlM_of_step {f : β → α → Option β}
    (hs : ∀ seen b, ∀ a ∈ l, P seen b → ∃ b', f b a = some b' ∧ P (seen ++ [a]) b') (h : P [] b) :
    ∃ b', l.foldlM f b = some b' ∧ P l b' := by
  suffices hg : ∀ rest seen b, rest ⊆ l → P seen b →
      ∃ b', rest.foldlM f b = some b' ∧ P (seen ++ rest) b' from hg l [] b (Subset.refl _) h
  intro rest
  induction rest
  case nil => exact fun seen b _ hb => ⟨b, rfl, (append_nil seen).symm ▸ hb⟩
  case cons a rest hi =>
    intro seen b hm hb
    have ⟨b', he, hb'⟩ := hs seen b a (hm mem_cons_self) hb
    have ⟨b'', hr, hn⟩ := hi (seen ++ [a]) b' (subset_of_cons_subset hm) hb'
    rw [append_assoc] at hn
    exact ⟨b'', by rw [foldlM_cons, he]; exact hr, hn⟩

end List
