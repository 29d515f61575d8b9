import Superkiro.Lib.Table

-- Tables that are filled one deposit at a time, each under its own key.
namespace AList

variable {κ α β : Type} [DecidableEq κ] {key : β → κ} {b : α} {g : α → β → α} {es : List β}
  {t : Table κ α} {k : κ}

-- Adds to what's under a key, or to what's there at first.
def deposit (key : β → κ) (b : α) (g : α → β → α) (t : Table κ α) (e : β) : Table κ α :=
  t.insert (key e) (g ((t.lookup (key e)).getD b) e)

theorem lookup_foldl_deposit :
    (es.foldl (deposit key b g) t).lookup k =
      if es.filter (key · = k) = [] then t.lookup k
      else some ((es.filter (key · = k)).foldl g ((t.lookup k).getD b)) := by
  induction es generalizing t
  case nil => rfl
  case cons e es hi =>
    rw [List.foldl_cons, hi, deposit]
    by_cases he : key e = k
    case pos =>
      subst he
      by_cases hn : es.filter (key · = key e) = [] <;> simp [hn]
    case neg =>
      have hl (v : α) : (t.insert (key e) v).lookup k = t.lookup k :=
        AList.lookup_insert_ne (Ne.symm he)
      simp [hl, he]

-- What's under a key is what all deposits of that key come to, if there are any.
theorem lookup_deposits :
    (es.foldl (deposit key b g) ∅).lookup k =
      if es.filter (key · = k) = [] then none else some ((es.filter (key · = k)).foldl g b) := by
  simp [lookup_foldl_deposit]

theorem mem_deposits : k ∈ es.foldl (deposit key b g) ∅ ↔ ∃ e ∈ es, key e = k := by
  rw [mem_iff_lookup, lookup_deposits]
  by_cases h : es.filter (key · = k) = []
  case pos =>
    have hk := List.filter_eq_nil_iff.mp h
    simp only [h, if_true, reduceCtorEq, exists_false, false_iff, not_exists, not_and]
    exact fun e he => by simpa using hk e he
  case neg =>
    have ⟨e, he⟩ := List.exists_mem_of_ne_nil _ h
    have ⟨he, hk⟩ := List.mem_filter.mp he
    simp only [h, if_false, Option.some.injEq, exists_eq', true_iff]
    exact ⟨e, he, of_decide_eq_true hk⟩

end AList

-- What's met first under each key, of what hasn't been seen yet.
def List.firsts {κ β : Type} [DecidableEq κ] (key : β → κ) (seen : Finset κ) : List β → List β
  | []      => []
  | e :: es => if key e ∈ seen then firsts key seen es else e :: firsts key (insert (key e) seen) es

namespace List

section

variable {κ β : Type} [DecidableEq κ] {key : β → κ} {seen : Finset κ} {e : β} {es : List β}

theorem firsts_sublist : (firsts key seen es).Sublist es := by
  induction es generalizing seen
  case nil => exact .slnil
  case cons e es hi =>
    rw [firsts]
    split
    case isTrue => exact hi.cons e
    case isFalse => exact hi.cons_cons e

theorem not_seen_of_mem_firsts (h : e ∈ firsts key seen es) : key e ∉ seen := by
  induction es generalizing seen
  case nil => cases h
  case cons d es hi =>
    rw [firsts] at h
    split at h
    case isTrue => exact hi h
    case isFalse hd =>
      cases h
      case head => exact hd
      case tail h => exact fun he => hi h (Finset.mem_insert_of_mem he)

theorem firsts_nodup : ((firsts key seen es).map key).Nodup := by
  induction es generalizing seen
  case nil => exact .nil
  case cons e es hi =>
    rw [firsts]
    split
    case isTrue => exact hi
    case isFalse =>
      rw [map_cons, nodup_cons]
      refine ⟨fun h => ?_, hi⟩
      have ⟨d, hd, he⟩ := mem_map.mp h
      exact not_seen_of_mem_firsts hd (he ▸ Finset.mem_insert_self _ _)

-- Everything is met under its key, unless that has been seen before.
theorem mem_firsts : e ∈ firsts key seen es ↔ key e ∉ seen ∧ es.find? (key · = key e) = some e := by
  induction es generalizing seen
  case nil => simp [firsts]
  case cons d es hi =>
    rw [firsts]
    by_cases hk : key d = key e
    case pos =>
      rw [find?_cons_of_pos (by simp [hk]), Option.some.injEq]
      by_cases hd : key d ∈ seen
      case pos =>
        rw [if_pos hd, hi]
        exact ⟨fun h => absurd (hk ▸ hd) h.left, fun h => absurd (hk ▸ hd) h.left⟩
      case neg =>
        rw [if_neg hd, mem_cons, hi]
        constructor
        · rintro (rfl | h)
          · exact ⟨hd, rfl⟩
          · exact absurd (hk ▸ Finset.mem_insert_self _ _) h.left
        · exact fun h => .inl h.right.symm
    case neg =>
      rw [find?_cons_of_neg (by simp [hk])]
      by_cases hd : key d ∈ seen
      case pos => rw [if_pos hd, hi]
      case neg =>
        rw [if_neg hd, mem_cons, hi, Finset.mem_insert, not_or]
        constructor
        · rintro (rfl | h)
          · exact absurd rfl hk
          · exact ⟨h.left.right, h.right⟩
        · exact fun h => .inr ⟨⟨Ne.symm hk, h.left⟩, h.right⟩

end

variable {κ β M : Type} [DecidableEq κ] [AddCommMonoid M] {key : β → κ} {ks : List κ} {es : List β}
  {w : β → M}

-- Sums over all keys come to the sum over everything.
theorem sum_sum_filter (hn : ks.Nodup) (hk : ∀ e ∈ es, key e ∈ ks) :
    (ks.map fun k => ((es.filter (key · = k)).map w).sum).sum = (es.map w).sum := by
  induction es
  case nil => simp
  case cons e es hi =>
    have ⟨he, hes⟩ := forall_mem_cons.mp hk
    have hw (k : κ) : (((e :: es).filter (key · = k)).map w).sum =
        (if k = key e then w e else 0) + ((es.filter (key · = k)).map w).sum := by
      by_cases h : key e = k
      case pos => simp [h]
      case neg => simp [h, Ne.symm h]
    simp only [hw]
    rw [sum_map_add, hi hes, map_cons, sum_cons, sum_map_eq_nsmul_single (key e)]
    · rw [count_eq_one_of_mem hn he, one_nsmul, if_pos rfl]
    · exact fun k hk _ => if_neg hk

end List

namespace Cap

variable {κ : Type} {ks : List κ}

-- Sums that are capped one by one come to the same as one that's capped as a whole.
theorem sum_min {m : Nat} {f : κ → Nat} :
    min m ((ks.map fun k => min m (f k)).sum) = min m (ks.map f).sum := by
  induction ks
  case nil => rfl
  case cons k ks hi =>
    rw [List.map_cons, List.map_cons, List.sum_cons, List.sum_cons]
    omega

theorem int_sum_min {m : Int} {f : κ → Int} (hf : ∀ k ∈ ks, 0 ≤ f k) (hm : 0 ≤ m) :
    min m ((ks.map fun k => min m (f k)).sum) = min m (ks.map f).sum := by
  induction ks
  case nil => rfl
  case cons k ks hi =>
    have ⟨hk, hks⟩ := List.forall_mem_cons.mp hf
    have hi := hi hks
    have hs : 0 ≤ (ks.map f).sum := List.sum_nonneg fun x hx => by
      have ⟨k, hk, he⟩ := List.mem_map.mp hx
      exact he ▸ hks k hk
    have hr : 0 ≤ (ks.map fun k => min m (f k)).sum := List.sum_nonneg fun x hx => by
      have ⟨k, hk, he⟩ := List.mem_map.mp hx
      exact he ▸ le_min hm (hks k hk)
    rw [List.map_cons, List.map_cons, List.sum_cons, List.sum_cons]
    omega

end Cap
