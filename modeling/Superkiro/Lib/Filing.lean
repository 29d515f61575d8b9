import Superkiro.Lib.Table

-- Filing a list into a table, under the keys its items have.
namespace AList

variable {κ α : Type} [DecidableEq κ] (key : α → Option κ)

def fileOne (t : Table κ α) (a : α) : Table κ α :=
  match key a with
  | some k => t.insert k a
  | none   => t

def file (t : Table κ α) (as : List α) : Table κ α := as.foldl (fileOne key) t

-- What one more item leaves out: itself, if it has no key, or what it replaces.
def replaced (t : Table κ α) (a : α) : List α :=
  match key a with
  | some k => (t.lookup k).toList
  | none   => [a]

def lost (t : Table κ α) : List α → List α
  | []      => []
  | a :: as => t.replaced key a ++ lost (t.fileOne key a) as

-- None of some of the items is left out, and none of them that was filed is replaced.
structure Files (own : α → Prop) (t : Table κ α) (as : List α) : Prop where
  keyed : ∀ a ∈ as, own a → (key a).isSome
  stay  : ∀ a ∈ as, ∀ k ∈ key a, ∀ b ∈ t.lookup k, ¬own b
  apart : as.Pairwise fun a b => own a → key a ≠ key b

-- What's filed is under its own key.
def Own (t : Table κ α) : Prop := ∀ ⦃k a⦄, t.lookup k = some a → key a = some k

variable {key} {own : α → Prop} {t : Table κ α} {as : List α} {a : α} {k : κ}

theorem values_insert_perm : (t.insert k a).values.Perm (a :: (t.erase k).values) := by
  rw [← erase_insert (v := a)]
  exact (entries_perm_erase (lookup_insert t)).map _

theorem values_perm_erase (h : t.lookup k = some a) : t.values.Perm (a :: (t.erase k).values) :=
  (entries_perm_erase h).map _

theorem fileOne_perm :
    ((t.fileOne key a).values ++ t.replaced key a).Perm (a :: t.values) := by
  cases hk : key a
  case none =>
    simp only [fileOne, replaced, hk]
    exact List.perm_append_singleton _ _
  case some k =>
    simp only [fileOne, replaced, hk]
    apply (values_insert_perm.append_right _).trans
    apply List.Perm.cons
    cases hl : t.lookup k
    case none => simp [erase_of_lookup_none hl]
    case some b => exact (List.perm_append_singleton _ _).trans (values_perm_erase hl).symm

-- What is filed in the end, with what was lost, is what was filed before and what there was to file.
theorem file_perm : ((t.file key as).values ++ t.lost key as).Perm (t.values ++ as) := by
  induction as generalizing t
  case nil => exact .refl _
  case cons a as hi =>
    have hr : ((t.file key (a :: as)).values ++ (t.replaced key a ++ (t.fileOne key a).lost key as)).Perm
        ((t.fileOne key a).values ++ as ++ t.replaced key a) := by
      have hi := (hi (t := t.fileOne key a)).append_right (t.replaced key a)
      rw [List.append_assoc] at hi
      exact (List.perm_append_comm.append_left _).trans hi
    apply hr.trans
    rw [List.append_assoc]
    apply (List.perm_append_comm.append_left _).trans
    rw [← List.append_assoc]
    exact (fileOne_perm.append_right _).trans List.perm_middle.symm

theorem stays_iff : (∀ b ∈ t.replaced key a, ¬own b) ↔
    (own a → (key a).isSome) ∧ ∀ k ∈ key a, ∀ b ∈ t.lookup k, ¬own b := by
  cases hk : key a <;> simp [replaced, hk]

theorem lookup_fileOne : (t.fileOne key a).lookup k = if key a = some k then some a else t.lookup k := by
  cases hk : key a
  case none => simp [fileOne, hk]
  case some k' =>
    simp only [fileOne, hk, Option.some.injEq]
    split
    case isTrue he => exact he ▸ lookup_insert t
    case isFalse he => exact lookup_insert_ne (Ne.symm he)

theorem stay_cons : (∀ b ∈ (t.fileOne key a).lookup k, ¬own b) ↔
    if key a = some k then ¬own a else ∀ b ∈ t.lookup k, ¬own b := by
  rw [lookup_fileOne]
  split <;> simp

theorem lost_iff : (∀ b ∈ t.lost key as, ¬own b) ↔ Files key own t as := by
  induction as generalizing t
  case nil => exact ⟨fun _ => ⟨by simp, by simp, .nil⟩, fun _ => by simp [lost]⟩
  case cons a as hi =>
    rw [lost, List.forall_mem_append, stays_iff, hi]
    constructor
    case mp =>
      intro ⟨⟨ha, hs⟩, h⟩
      have hb {b k} (hb : b ∈ as) (hk : key b = some k) :
          if key a = some k then ¬own a else ∀ c ∈ t.lookup k, ¬own c :=
        stay_cons.mp (h.stay b hb k hk)
      constructor
      case keyed => exact List.forall_mem_cons.mpr ⟨ha, h.keyed⟩
      case stay =>
        refine List.forall_mem_cons.mpr ⟨hs, fun b hm k hk => ?_⟩
        by_cases he : key a = some k
        case pos => exact hs k he
        case neg =>
          have := hb hm hk
          rwa [if_neg he] at this
      case apart =>
        refine .cons (fun b hm ho he => ?_) h.apart
        have ⟨k, hk⟩ := Option.isSome_iff_exists.mp (ha ho)
        have := hb hm (he.symm.trans hk)
        rw [if_pos hk] at this
        exact this ho
    case mpr =>
      intro h
      have ⟨ha, hr⟩ := List.forall_mem_cons.mp h.keyed
      have ⟨hs, ht⟩ := List.forall_mem_cons.mp h.stay
      have ⟨hp, hq⟩ := List.pairwise_cons.mp h.apart
      refine ⟨⟨ha, hs⟩, hr, fun b hm k hk => stay_cons.mpr ?_, hq⟩
      split
      case isTrue he => exact fun ho => hp b hm ho (he.trans hk.symm)
      case isFalse => exact ht b hm k hk

-- What some items are counted as stays the same only if none of them is lost.
theorem filterMap_file_perm {f : α → Option β} (ho : ∀ a, own a ↔ (f a).isSome) :
    ((t.file key as).values.filterMap f).Perm ((t.values ++ as).filterMap f) ↔
      Files key own t as := by
  have hp : (((t.file key as).values ++ t.lost key as).filterMap f).Perm ((t.values ++ as).filterMap f) :=
    file_perm.filterMap f
  rw [List.filterMap_append] at hp
  have hn : (t.lost key as).filterMap f = [] ↔ Files key own t as := by
    rw [← lost_iff, List.filterMap_eq_nil_iff]
    simp [ho]
  rw [← hn]
  constructor
  case mp =>
    intro h
    have hl := h.length_eq
    rw [← hp.length_eq, List.length_append] at hl
    exact List.eq_nil_of_length_eq_zero (by omega)
  case mpr =>
    intro h
    simpa [h] using hp

theorem Own.file (h : t.Own key) : (t.file key as).Own key := by
  induction as generalizing t
  case nil => exact h
  case cons a as hi =>
    apply hi
    intro k b hb
    rw [lookup_fileOne] at hb
    split at hb
    case isTrue hk => exact (Option.some.inj hb) ▸ hk
    case isFalse => exact h hb

theorem Own.filterMap_values (h : t.Own key) : t.values.filterMap key = t.keys := by
  have hk : ∀ es : List (Σ _ : κ, α), (∀ e ∈ es, key e.2 = some e.1) →
      (es.map (·.2)).filterMap key = es.map (·.1) := by
    intro es he
    induction es
    case nil => rfl
    case cons e es hi =>
      rw [List.forall_mem_cons] at he
      rw [List.map_cons, List.filterMap_cons_some he.left, hi he.right, List.map_cons]
  exact hk t.entries fun e he => h (mem_entries_iff.mp he)

end AList
