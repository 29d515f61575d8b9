import Mathlib

-- A backlog that's served a few at a time, in order.
namespace Backlog

variable {α : Type} [LinearOrder α] {l : List α} {a b : α} {k : Nat}

def sorted (l : List α) : List α := l.insertionSort (· ≤ ·)

-- What's served of a backlog.
def first (k : Nat) (l : List α) : List α := (sorted l).take k

-- What's served before something else.
def ahead (a : α) (l : List α) : List α := l.filter (· < a)

theorem sorted_perm : (sorted l).Perm l := List.perm_insertionSort _ _

theorem mem_sorted : a ∈ sorted l ↔ a ∈ l := sorted_perm.mem_iff

theorem mem_of_mem_first (h : a ∈ first k l) : a ∈ l := mem_sorted.mp (List.mem_of_mem_take h)

theorem length_first_le : (first k l).length ≤ k := by simp [first]

theorem nodup_first (h : l.Nodup) : (first k l).Nodup :=
  (sorted_perm.nodup_iff.mpr h).sublist (List.take_sublist _ _)

-- The elements in front of one in the order are those that are smaller.
theorem sorted_split (hn : l.Nodup) (ha : a ∈ l) :
    ∃ xs ys, sorted l = xs ++ a :: ys ∧ xs.length = (ahead a l).length ∧ ∀ b ∈ xs, b < a := by
  have ⟨xs, ys, h⟩ := List.append_of_mem (mem_sorted.mpr ha)
  have hs : (sorted l).Pairwise (· ≤ ·) := List.pairwise_insertionSort _ _
  have hd : (sorted l).Nodup := sorted_perm.nodup_iff.mpr hn
  rw [h, List.pairwise_append] at hs
  rw [h, List.nodup_append] at hd
  have hx : ∀ b ∈ xs, b < a := fun b hb =>
    lt_of_le_of_ne (hs.right.right b hb a List.mem_cons_self) (hd.right.right b hb a List.mem_cons_self)
  have hy : ∀ b ∈ a :: ys, ¬b < a := by
    intro b hb
    cases List.mem_cons.mp hb
    case inl h => exact h ▸ lt_irrefl a
    case inr h => exact not_lt.mpr (List.rel_of_pairwise_cons hs.right.left h)
  refine ⟨xs, ys, h, ?_, hx⟩
  have hp : (ahead a (sorted l)).Perm (ahead a l) := sorted_perm.filter _
  have hf : ahead a (xs ++ a :: ys) = xs := by
    rw [ahead, List.filter_append, List.filter_eq_self.mpr (by simpa using hx),
      List.filter_eq_nil_iff.mpr (by simpa using hy), List.append_nil]
  rw [← hp.length_eq, h, hf]

-- Something is served if and only if few enough are ahead of it.
theorem mem_first_iff (hn : l.Nodup) (ha : a ∈ l) : a ∈ first k l ↔ (ahead a l).length < k := by
  have ⟨xs, ys, h, hl, hx⟩ := sorted_split hn ha
  have hxa : a ∉ xs := fun hm => lt_irrefl a (hx a hm)
  rw [first, h, List.take_append, List.mem_append, ← hl]
  constructor
  case mp =>
    intro h
    cases h
    case inl h => exact absurd (List.mem_of_mem_take h) hxa
    case inr h =>
      by_contra hk
      rw [Nat.sub_eq_zero_of_le (Nat.le_of_not_lt hk)] at h
      cases h
  case mpr =>
    intro hk
    have ⟨n, hn⟩ := Nat.exists_eq_succ_of_ne_zero (Nat.sub_ne_zero_of_lt hk)
    rw [hn, List.take_succ_cons]
    exact .inr List.mem_cons_self

-- What's ahead of something that's served is served, too.
theorem first_of_lt (hn : l.Nodup) (ha : a ∈ first k l) (hb : b ∈ l) (h : b < a) : b ∈ first k l := by
  rw [mem_first_iff hn (mem_of_mem_first ha)] at ha
  rw [mem_first_iff hn hb]
  refine lt_of_le_of_lt (List.Sublist.length_le ?_) ha
  apply List.monotone_filter_right
  intro c hc
  simp only [decide_eq_true_eq] at hc ⊢
  exact hc.trans h

-- As many as possible are served before something that isn't, and all of them are ahead of it.
theorem first_of_not_mem (hn : l.Nodup) (ha : a ∈ l) (h : a ∉ first k l) :
    (first k l).length = k ∧ ∀ b ∈ first k l, b < a := by
  have ⟨xs, ys, hs, hl, hx⟩ := sorted_split hn ha
  rw [mem_first_iff hn ha, not_lt, ← hl] at h
  rw [first, hs, List.take_append_of_le_length h]
  exact ⟨List.length_take_of_le h, fun b hb => hx b (List.mem_of_mem_take hb)⟩

end Backlog
