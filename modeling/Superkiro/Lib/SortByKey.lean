import Mathlib

-- Lists sorted by a number, with what has the same number left in its order.
namespace List

variable {α : Type} {key : α → Nat} {l l' : List α}

def sortByKey (key : α → Nat) (l : List α) : List α := l.insertionSort fun a b => key a ≤ key b

def withKey (key : α → Nat) (n : Nat) (l : List α) : List α := l.filter fun a => key a = n

instance trans_key : IsTrans α fun a b => key a ≤ key b := ⟨fun _ _ _ => Nat.le_trans⟩

instance total_key : Std.Total fun a b : α => key a ≤ key b := ⟨fun _ _ => Nat.le_total _ _⟩

theorem sortByKey_perm : (l.sortByKey key).Perm l := perm_insertionSort _ _

theorem withKey_sortByKey (n : Nat) : (l.sortByKey key).withKey key n = l.withKey key n := by
  have hs : (l.withKey key n).Sublist (l.sortByKey key) := by
    apply sublist_insertionSort
    case hr =>
      apply pairwise_of_forall_mem_list
      intro a ha b hb
      simp only [withKey, mem_filter, decide_eq_true_eq] at ha hb
      omega
    case hc => exact filter_sublist
  have hf := hs.filter fun a => decide (key a = n)
  rw [withKey, filter_filter] at hf
  simp only [Bool.and_self] at hf
  exact (hf.eq_of_length (sortByKey_perm.filter _).length_eq.symm).symm

theorem withKey_self (a : α) : (a :: l).withKey key (key a) = a :: l.withKey key (key a) := by
  simp [withKey]

-- Sorted lists are the same if they have the same under each number.
theorem eq_of_withKey (h : l.Pairwise fun a b => key a ≤ key b)
    (h' : l'.Pairwise fun a b => key a ≤ key b)
    (he : ∀ n, l.withKey key n = l'.withKey key n) : l = l' := by
  induction l generalizing l'
  case nil =>
    cases l'
    case nil => rfl
    case cons b l' =>
      have hb := he (key b)
      rw [withKey_self] at hb
      cases hb
  case cons a l hi =>
    cases l'
    case nil =>
      have ha := he (key a)
      rw [withKey_self] at ha
      cases ha
    case cons b l' =>
      have first {c d : α} {m m' : List α} (hm' : (d :: m').Pairwise fun a b => key a ≤ key b)
          (hw : (c :: m).withKey key (key c) = (d :: m').withKey key (key c)) : key d ≤ key c := by
        have hc : c ∈ (d :: m').withKey key (key c) := hw ▸ withKey_self c ▸ mem_cons_self
        obtain hc | hc := mem_cons.mp (mem_of_mem_filter hc)
        · exact hc ▸ le_refl _
        · exact rel_of_pairwise_cons hm' hc
      have hk : key a = key b := Nat.le_antisymm (first h (he (key b)).symm) (first h' (he (key a)))
      have hab := he (key a)
      rw [withKey_self, hk, withKey_self, ← hk] at hab
      have hab : a = b := (cons.inj hab).left
      subst hab
      rw [hi h.of_cons h'.of_cons]
      intro n
      have hn := he n
      by_cases ha : key a = n <;> simpa [withKey, ha] using hn

theorem sortByKey_eq_iff : l.sortByKey key = l'.sortByKey key ↔
    ∀ n, l.withKey key n = l'.withKey key n := by
  constructor
  case mp =>
    intro h n
    rw [← withKey_sortByKey, h, withKey_sortByKey]
  case mpr =>
    intro h
    apply eq_of_withKey (pairwise_insertionSort _ _) (pairwise_insertionSort _ _)
    intro n
    have hn := h n
    rwa [← withKey_sortByKey (l := l), ← withKey_sortByKey (l := l')] at hn

theorem withKey_append (n : Nat) : (l ++ l').withKey key n = l.withKey key n ++ l'.withKey key n :=
  filter_append _ _

-- What is gathered from the items with some numbers has those numbers only.
theorem withKey_filterMap_filter {f : β → Option α} {g : β → Nat}
    (h : ∀ b a, f b = some a → key a = g b) (p : Nat → Bool) (m : List β) (n : Nat) :
    ((m.filter fun b => p (g b)).filterMap f).withKey key n =
      if p n then (m.filterMap f).withKey key n else [] := by
  induction m
  case nil => simp [withKey]
  case cons b m hi =>
    cases hf : f b
    case none =>
      rw [filterMap_cons_none hf, filter_cons]
      split
      case isTrue => rwa [filterMap_cons_none hf]
      case isFalse => exact hi
    case some a =>
      have ha : key a = g b := h b a hf
      have hc (l : List α) : (a :: l).withKey key n =
          if key a = n then a :: l.withKey key n else l.withKey key n := by
        simp [withKey, filter_cons]
      rw [filterMap_cons_some hf, hc, filter_cons, ← ha]
      by_cases hn : key a = n <;> by_cases hp : p (key a) <;> simp_all

theorem withKey_perm (h : l.Perm l') (n : Nat) : (l.withKey key n).Perm (l'.withKey key n) :=
  h.filter _

-- What is gathered from a list has the same under a number, whichever order the list is in, only if
-- that's one thing repeated.
theorem withKey_perm_iff {f : β → Option α} {m : List β} {n : Nat} {w : List α} :
    (∀ p : List β, p.Perm m → (p.filterMap f).withKey key n = w) ↔
      ((m.filterMap f).withKey key n).Perm w ∧ ∀ a ∈ w, ∀ b ∈ w, a = b := by
  constructor
  case mp =>
    intro h
    have hm := h m (.refl m)
    refine ⟨hm ▸ .refl _, ?_⟩
    have first {a : α} (ha : a ∈ w) : w.head? = some a := by
      rw [← hm] at ha
      have ⟨hf, hk⟩ := mem_filter.mp ha
      have hk : key a = n := of_decide_eq_true hk
      have ⟨x, hx, hfx⟩ := mem_filterMap.mp hf
      have ⟨u, v, hs⟩ := append_of_mem hx
      have hp := h (x :: (u ++ v)) (hs ▸ perm_middle.symm)
      rw [filterMap_cons_some hfx, ← hk, withKey_self] at hp
      rw [← hp]
      rfl
    intro a ha b hb
    exact Option.some.inj ((first ha).symm.trans (first hb))
  case mpr =>
    intro ⟨hw, hs⟩ p hp
    have hp : ((p.filterMap f).withKey key n).Perm w := (withKey_perm (hp.filterMap f) n).trans hw
    cases w
    case nil => exact hp.eq_nil
    case cons a w =>
      have ha := eq_replicate_of_mem (a := a) fun b hb => hs b hb a mem_cons_self
      rw [ha] at hp ⊢
      exact perm_replicate.mp hp

theorem perm_of_withKey [DecidableEq α] (h : ∀ n, (l.withKey key n).Perm (l'.withKey key n)) :
    l.Perm l' := by
  rw [perm_iff_count]
  intro a
  have hc := (h (key a)).count_eq a
  rwa [withKey, withKey, count_filter (by simp), count_filter (by simp)] at hc

end List
