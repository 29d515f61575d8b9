import Mathlib

-- Searching a list for a needle, as the program's language searches texts. A needle has at least
-- one element.
namespace Search

variable {α : Type*} [DecidableEq α]

-- What comes before the first occurrence of the needle, and what comes after it.
def splitOnce (needle : List α) : List α → Option (List α × List α)
  | []      => if needle = [] then some ([], []) else none
  | c :: cs =>
    if needle <+: c :: cs then some ([], (c :: cs).drop needle.length)
    else (splitOnce needle cs).map fun (before, after) => (c :: before, after)

-- The needle's occurrences from left to right where they don't overlap, each as what comes before
-- and after it. The next `skip` elements are part of the last one.
def matchesFrom (needle : List α) :
    (before : List α) → (skip : Nat) → List α → List (List α × List α)
  | _, _, []                   => []
  | before, skip + 1, c :: cs  => matchesFrom needle (before ++ [c]) skip cs
  | before, 0, c :: cs         =>
    if needle <+: c :: cs then
      (before, (c :: cs).drop needle.length) ::
        matchesFrom needle (before ++ [c]) (needle.length - 1) cs
    else matchesFrom needle (before ++ [c]) 0 cs

def matchIndices (needle s : List α) : List (List α × List α) := matchesFrom needle [] 0 s

-- No end of the needle is also a beginning of it.
def Unbordered (needle : List α) : Prop :=
  ∀ d < needle.length, 0 < d → ¬needle.drop d <+: needle

instance (needle : List α) : Decidable (Unbordered needle) :=
  inferInstanceAs <| Decidable (∀ d < needle.length, 0 < d → ¬needle.drop d <+: needle)

variable {needle s before after pre x y a b m v : List α} {k : Nat}

omit [DecidableEq α] in
theorem eq_append_of_prefix (h : needle <+: s) : s = needle ++ s.drop needle.length :=
  (List.prefix_iff_eq_append.mp h).symm

omit [DecidableEq α] in
theorem Unbordered.not_prefix (h : Unbordered (m ++ v)) (hm : m ≠ []) (hv : v ≠ []) :
    ¬v <+: m ++ v := by
  have h := h m.length
  rw [List.drop_left] at h
  apply h
  case a =>
    have := List.length_pos_of_ne_nil hv
    simp only [List.length_append]
    omega
  case a => exact List.length_pos_of_ne_nil hm

section Overlap

omit [DecidableEq α]

-- Of two occurrences, the later one begins within the earlier one or after it.
theorem later (h : x ++ needle ++ a = y ++ needle ++ b) (hl : x.length < y.length) :
    (∃ m v, needle = m ++ v ∧ y = x ++ m ∧ m ≠ [] ∧ v ≠ [] ∧ v <+: needle) ∨
      ∃ m, y = x ++ needle ++ m ∧ a = m ++ needle ++ b := by
  rw [List.append_assoc, List.append_assoc] at h
  obtain ⟨m, hy, hm⟩ | ⟨m, hx, _⟩ := List.append_eq_append_iff.mp h
  case inr => simp [hx] at hl
  case inl =>
    have hm0 : m ≠ [] := fun h0 => by simp [hy, h0] at hl
    obtain ⟨n, hn, ha⟩ | ⟨v, hn, ha⟩ := List.append_eq_append_iff.mp hm
    case inl => exact .inr ⟨n, by simp [hy, hn], by simp [ha]⟩
    case inr =>
      by_cases hv : v = []
      case pos =>
        subst hv
        exact .inr ⟨[], by simp [hy, hn], by simpa using ha.symm⟩
      case neg =>
        refine .inl ⟨m, v, hn, hy, hm0, hv, ?_⟩
        have hp : v <+: needle ++ b := ⟨a, ha.symm⟩
        apply List.prefix_of_prefix_length_le hp (List.prefix_append ..)
        simp [hn]

theorem Unbordered.later (hu : Unbordered needle) (h : x ++ needle ++ a = y ++ needle ++ b)
    (hl : x.length < y.length) : ∃ m, y = x ++ needle ++ m ∧ a = m ++ needle ++ b := by
  obtain ⟨m, v, hn, _, hm, hv, hp⟩ | hm := Search.later h hl
  · subst hn
    exact (hu.not_prefix hm hv hp).elim
  · exact hm

-- A needle that isn't found again is found in one place.
theorem Unbordered.last_unique (hu : Unbordered needle)
    (h : x ++ needle ++ a = y ++ needle ++ b) (ha : ¬needle <:+: a) (hb : ¬needle <:+: b) :
    x = y ∧ a = b := by
  obtain hl | hl | hl := Nat.lt_trichotomy x.length y.length
  case inl =>
    have ⟨m, _, hm⟩ := hu.later h hl
    exact (ha ⟨m, b, hm.symm⟩).elim
  case inr.inl =>
    rw [List.append_assoc, List.append_assoc] at h
    have ⟨hx, h⟩ := List.append_inj h hl
    exact ⟨hx, List.append_cancel_left h⟩
  case inr.inr =>
    have ⟨m, _, hm⟩ := hu.later h.symm hl
    exact (hb ⟨m, a, hm.symm⟩).elim

variable {p : α → Prop}

theorem infix_of_append_left (hn : needle ≠ []) (hp : ∀ c ∈ needle, ¬p c) (ha : ∀ c ∈ a, p c)
    (h : needle <:+: a ++ s) : needle <:+: s := by
  have ⟨x, y, he⟩ := h
  rw [List.append_assoc] at he
  obtain ⟨m, hm, hs⟩ | ⟨m, hm, hs⟩ := List.append_eq_append_iff.mp he
  case inr => exact ⟨m, y, by simp [hs]⟩
  case inl =>
    cases m
    case nil => exact ⟨[], y, by simpa using hs⟩
    case cons c m =>
      cases needle
      case nil => exact (hn rfl).elim
      case cons d needle =>
        have hc : d = c := (List.cons.inj hs).left
        exact (hp d List.mem_cons_self <| ha d <| by simp [hm, hc]).elim

theorem infix_of_append_right (hn : needle ≠ []) (hp : ∀ c ∈ needle, ¬p c) (ha : ∀ c ∈ a, p c)
    (h : needle <:+: s ++ a) : needle <:+: s := by
  rw [← List.reverse_infix, List.reverse_append] at h
  rw [← List.reverse_infix]
  refine infix_of_append_left (p := p) ?_ ?_ ?_ h
  case refine_1 => simpa using hn
  case refine_2 => simpa using hp
  case refine_3 => simpa using ha

end Overlap

section SplitOnce

theorem splitOnce_eq (h : splitOnce needle s = some (before, after)) :
    s = before ++ needle ++ after := by
  induction s generalizing before
  case nil =>
    rw [splitOnce] at h
    split at h
    case isFalse => cases h
    case isTrue hn =>
      cases h
      simp [hn]
  case cons c cs hi =>
    rw [splitOnce] at h
    split at h
    case isTrue hp =>
      cases h
      simpa using eq_append_of_prefix hp
    case isFalse =>
      have ⟨⟨b, a⟩, hb, he⟩ := Option.map_eq_some_iff.mp h
      cases he
      simp [hi hb]

-- It's the first occurrence that splits.
theorem splitOnce_first (h : splitOnce needle s = some (before, after))
    (hs : s = x ++ needle ++ y) : before.length ≤ x.length := by
  induction s generalizing before x
  case nil =>
    have := splitOnce_eq h
    simp_all
  case cons c cs hi =>
    rw [splitOnce] at h
    split at h
    case isTrue =>
      cases h
      exact Nat.zero_le _
    case isFalse hp =>
      have ⟨⟨b, a⟩, hb, he⟩ := Option.map_eq_some_iff.mp h
      cases he
      cases x
      case nil => exact (hp ⟨y, by simpa using hs.symm⟩).elim
      case cons d x =>
        have hs := (List.cons.inj hs).right
        exact Nat.succ_le_succ <| hi hb hs

theorem splitOnce_none : splitOnce needle s = none ↔ ¬needle <:+: s := by
  induction s
  case nil => simp [splitOnce]
  case cons c cs hi =>
    rw [splitOnce, List.infix_cons_iff]
    by_cases hp : needle <+: c :: cs <;> simp [hp, hi]

theorem not_infix_before (hn : needle ≠ []) (h : splitOnce needle s = some (before, after)) :
    ¬needle <:+: before := by
  intro ⟨x, y, hb⟩
  have hl := splitOnce_first (x := x) (y := y ++ needle ++ after) h <| by
    rw [splitOnce_eq h, ← hb]
    simp
  have := List.length_pos_of_ne_nil hn
  simp only [← hb, List.length_append] at hl
  omega

theorem Unbordered.splitOnce (hu : Unbordered needle) (hb : ¬needle <:+: before) :
    splitOnce needle (before ++ needle ++ after) = some (before, after) := by
  cases h : Search.splitOnce needle (before ++ needle ++ after)
  case none => exact (splitOnce_none.mp h ⟨before, after, rfl⟩).elim
  case some r =>
    have ⟨x, a⟩ := r
    have he := splitOnce_eq h
    obtain hl | hl := Nat.lt_or_eq_of_le (splitOnce_first h rfl)
    case inl =>
      have ⟨m, hm, _⟩ := hu.later he.symm hl
      exact (hb ⟨x, m, hm.symm⟩).elim
    case inr =>
      rw [List.append_assoc, List.append_assoc] at he
      have ⟨hx, he⟩ := List.append_inj he hl.symm
      rw [hx, List.append_cancel_left he]

end SplitOnce

section Matches

theorem matchesFrom_sound (h : (before, after) ∈ matchesFrom needle pre k s) :
    before ++ needle ++ after = pre ++ s := by
  induction s generalizing pre k
  case nil => cases k <;> cases h
  case cons c cs hi =>
    cases k
    case succ k => simpa using hi h
    case zero =>
      rw [matchesFrom] at h
      split at h
      case isFalse => simpa using hi h
      case isTrue hp =>
        cases List.mem_cons.mp h
        case inr h => simpa using hi h
        case inl h =>
          cases h
          rw [List.append_assoc, ← eq_append_of_prefix hp]

-- Every occurrence is matched, or one that's matched overlaps it from before.
theorem matchesFrom_complete (hn : needle ≠ []) (hk : k ≤ before.length)
    (hs : s = before ++ needle ++ after) :
    (pre ++ before, after) ∈ matchesFrom needle pre k s ∨
      ∃ x y, (x, y) ∈ matchesFrom needle pre k s ∧ x.length < (pre ++ before).length ∧
        (pre ++ before).length < x.length + needle.length := by
  induction s generalizing pre k before
  case nil => simp_all
  case cons c cs hi =>
    cases before
    case nil =>
      have hk : k = 0 := Nat.le_zero.mp hk
      subst hk
      have hp : needle <+: c :: cs := ⟨after, hs.symm⟩
      rw [matchesFrom, if_pos hp, hs]
      simp
    case cons d before =>
      have ⟨hc, hcs⟩ := List.cons.inj hs
      subst hc
      have hpre : pre ++ c :: before = pre ++ [c] ++ before := by simp
      rw [hpre]
      cases k
      case succ k => exact hi (Nat.le_of_succ_le_succ hk) hcs
      case zero =>
        rw [matchesFrom]
        split
        case isFalse => exact hi (Nat.zero_le _) hcs
        case isTrue hp =>
          by_cases hl : needle.length - 1 ≤ before.length
          case neg =>
            refine .inr ⟨pre, _, List.mem_cons_self, ?_⟩
            simp only [List.length_append, List.length_cons, List.length_nil]
            omega
          case pos =>
            obtain h | ⟨x, y, h, hx⟩ := hi hl hcs
            · exact .inl <| List.mem_cons_of_mem _ h
            · exact .inr ⟨x, y, List.mem_cons_of_mem _ h, hx⟩

theorem matchIndices_sound (h : (before, after) ∈ matchIndices needle s) :
    s = before ++ needle ++ after := (matchesFrom_sound h).symm

-- An occurrence that isn't matched shares an end of the needle with one that is.
theorem matchIndices_complete (hn : needle ≠ []) (hs : s = before ++ needle ++ after) :
    (before, after) ∈ matchIndices needle s ∨
      ∃ x y m v, (x, y) ∈ matchIndices needle s ∧ needle = m ++ v ∧ before = x ++ m ∧ m ≠ [] ∧
        v ≠ [] ∧ v <+: needle := by
  obtain h | ⟨x, y, h, hl, hr⟩ := matchesFrom_complete hn (Nat.zero_le _) hs
  case inl => exact .inl h
  case inr =>
    have he := (matchIndices_sound h).symm.trans hs
    obtain ⟨m, v, hm⟩ | ⟨m, hm, _⟩ := later he hl
    case inl => exact .inr ⟨x, y, m, v, h, hm⟩
    case inr =>
      simp only [List.nil_append, hm, List.length_append] at hr
      omega

theorem Unbordered.mem_matchIndices (hu : Unbordered needle) (hn : needle ≠ []) :
    (before, after) ∈ matchIndices needle s ↔ s = before ++ needle ++ after := by
  constructor
  case mp => exact matchIndices_sound
  case mpr =>
    intro hs
    obtain h | ⟨_, _, m, v, _, he, _, hm, hv, hp⟩ := matchIndices_complete hn hs
    case inl => exact h
    case inr =>
      subst he
      exact (hu.not_prefix hm hv hp).elim

theorem matchesFrom_skip (h : k ≤ s.length) :
    matchesFrom needle pre k s = matchesFrom needle (pre ++ s.take k) 0 (s.drop k) := by
  induction s generalizing pre k
  case nil =>
    have hk : k = 0 := Nat.le_zero.mp h
    simp [hk]
  case cons c cs hi =>
    cases k
    case zero   => simp
    case succ k => simp [matchesFrom, hi (Nat.le_of_succ_le_succ h)]

theorem matchesFrom_needle (hn : needle ≠ []) :
    matchesFrom needle pre 0 (needle ++ s) =
      (pre, s) :: matchesFrom needle (pre ++ needle) 0 s := by
  cases needle
  case nil => exact (hn rfl).elim
  case cons c needle =>
    have hp : c :: needle <+: c :: (needle ++ s) := ⟨s, rfl⟩
    have hl : needle.length ≤ (needle ++ s).length := by simp
    rw [List.cons_append, matchesFrom, if_pos hp, List.length_cons, Nat.add_sub_cancel,
      matchesFrom_skip hl]
    simp

theorem matchesFrom_nil (hn : needle ≠ []) :
    matchesFrom needle pre 0 s = [] ↔ ¬needle <:+: s := by
  constructor
  case mp =>
    intro h ⟨x, y, hs⟩
    have hm : (pre ++ x, y) ∈ matchesFrom needle pre 0 s ∨ _ :=
      matchesFrom_complete hn (Nat.zero_le _) hs.symm
    simp [h] at hm
  case mpr =>
    intro h
    rw [List.eq_nil_iff_forall_not_mem]
    intro (x, y) hm
    induction s generalizing pre
    case nil => cases hm
    case cons c cs hi =>
      rw [List.infix_cons_iff, not_or] at h
      rw [matchesFrom, if_neg h.left] at hm
      exact hi h.right hm

end Matches

end Search
