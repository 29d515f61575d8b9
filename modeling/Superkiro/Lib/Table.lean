import Mathlib

-- A finite map. Keys are unique by construction and entries are kept in some order, as an iteration
-- over a hash map meets them in some order.
abbrev Table (κ α : Type) := AList fun _ : κ => α

namespace AList

variable {κ α : Type} {t t' : Table κ α} {k k' : κ} {v w : α} {f g : κ → α → Int}

def values (t : Table κ α) : List α := t.entries.map (·.2)

-- The sum of a quantity over all entries.
def total (f : κ → α → Int) (t : Table κ α) : Int := (t.entries.map fun e => f e.1 e.2).sum

def retain (p : κ → α → Bool) (t : Table κ α) : Table κ α where
  entries  := t.entries.filter fun e => p e.1 e.2
  nodupKeys := t.nodupKeys.sublist List.filter_sublist

-- The entries in the order of their keys, as an ordered map iterates.
def ascending [LE κ] [DecidableLE κ] (t : Table κ α) : List (Σ _ : κ, α) :=
  t.entries.insertionSort fun a b => a.1 ≤ b.1

theorem ascending_perm [LE κ] [DecidableLE κ] (t : Table κ α) : t.ascending.Perm t.entries :=
  List.perm_insertionSort _ _

theorem map_keys (g : κ → α → α) (es : List (Σ _ : κ, α)) :
    (es.map fun e => (⟨e.1, g e.1 e.2⟩ : Σ _ : κ, α)).keys = es.keys := by
  simp [List.keys]

def mapValues (g : κ → α → α) (t : Table κ α) : Table κ α where
  entries   := t.entries.map fun e => ⟨e.1, g e.1 e.2⟩
  nodupKeys := by
    rw [List.NodupKeys, map_keys]
    exact t.nodupKeys

variable [DecidableEq κ]

-- Changes the value under a key, if there is one.
def update (k : κ) (g : α → α) (t : Table κ α) : Table κ α :=
  match t.lookup k with
  | some v => t.insert k (g v)
  | none   => t

-- The value another table has under a key, if there is one.
def copy (t other : Table κ α) (k : κ) : Table κ α :=
  match other.lookup k with
  | some v => t.insert k v
  | none   => t

def orInsert (k : κ) (v : α) (t : Table κ α) : Table κ α := if k ∈ t then t else t.insert k v

theorem mem_entries_iff : ⟨k, v⟩ ∈ t.entries ↔ t.lookup k = some v :=
  mem_lookup_iff.symm

theorem mem_of_lookup (h : t.lookup k = some v) : k ∈ t :=
  lookup_isSome.mp (by simp [h])

theorem mem_iff_lookup : k ∈ t ↔ ∃ v, t.lookup k = some v := by
  rw [←lookup_isSome, Option.isSome_iff_exists]

theorem mem_values : v ∈ t.values ↔ ∃ k, t.lookup k = some v := by
  simp only [values, List.mem_map, ←mem_entries_iff]
  constructor
  · rintro ⟨e, he, rfl⟩
    exact ⟨e.1, he⟩
  · rintro ⟨k, h⟩
    exact ⟨_, h, rfl⟩

-- Values that know their keys are found by them.
theorem find?_of_keyed {l : List α} {f : α → κ} (hm : ∀ v, v ∈ l ↔ ∃ k, t.lookup k = some v)
    (hf : ∀ {k v}, t.lookup k = some v → f v = k) : l.find? (f · = k) = t.lookup k := by
  cases hk : t.lookup k
  case none =>
    rw [List.find?_eq_none]
    intro v hv he
    have ⟨k', hl⟩ := (hm v).mp hv
    have he : k' = k := (hf hl).symm.trans (of_decide_eq_true he)
    cases (he ▸ hl).symm.trans hk
  case some v =>
    have hs : (l.find? (f · = k)).isSome := by
      rw [List.find?_isSome]
      exact ⟨v, (hm v).mpr ⟨k, hk⟩, decide_eq_true (hf hk)⟩
    have ⟨w, hw⟩ := Option.isSome_iff_exists.mp hs
    have ⟨k', hl⟩ := (hm w).mp (List.mem_of_find?_eq_some hw)
    have he : f w = k := by simpa using List.find?_some hw
    have he : k' = k := (hf hl).symm.trans he
    rw [hw, ← hk, ← he, hl]

theorem nodup_values {β : Type} {f : α → β} {g : κ → β} (hg : g.Injective)
    (hf : ∀ {k v}, t.lookup k = some v → f v = g k) : (t.values.map f).Nodup := by
  have he : t.values.map f = t.keys.map g := by
    rw [values, keys, List.keys, List.map_map, List.map_map]
    exact List.map_congr_left fun e he => hf (mem_entries_iff.mp he)
  rw [he]
  exact t.keys_nodup.map hg

theorem lookup_insert_iff :
    (t.insert k v).lookup k' = some w ↔ (k' = k ∧ v = w) ∨ (k' ≠ k ∧ t.lookup k' = some w) := by
  by_cases h : k' = k
  case pos => subst h; simp
  case neg => simp [h, lookup_insert_ne h]

theorem lookup_erase_iff :
    (t.erase k).lookup k' = some w ↔ k' ≠ k ∧ t.lookup k' = some w := by
  by_cases h : k' = k
  case pos => subst h; simp
  case neg => simp [h, lookup_erase_ne h]

theorem erase_insert : (t.insert k v).erase k = t.erase k :=
  ext <| List.kerase_cons_eq rfl

theorem lookup_foldl_erase {ks : List κ} :
    (ks.foldl (fun t k => t.erase k) t).lookup k' = some w ↔ k' ∉ ks ∧ t.lookup k' = some w := by
  induction ks generalizing t
  case nil => simp
  case cons hi => rw [List.foldl_cons, hi, lookup_erase_iff, List.mem_cons]; tauto

theorem entries_foldl_erase {ks : List κ} :
    (ks.foldl (fun t k => t.erase k) t).entries.Perm (t.entries.filter fun e => e.1 ∉ ks) := by
  refine (List.perm_ext_iff_of_nodup ?_ ?_).mpr ?_
  · exact (ks.foldl (fun t k => t.erase k) t).nodupKeys.nodup
  · exact t.nodupKeys.nodup.filter _
  · rintro ⟨k, v⟩
    rw [mem_entries_iff, lookup_foldl_erase, List.mem_filter, mem_entries_iff]
    simp [and_comm]

theorem lookup_retain (p : κ → α → Bool) :
    (t.retain p).lookup k = some v ↔ t.lookup k = some v ∧ p k v = true := by
  simp [←mem_entries_iff, retain]

theorem lookup_mapValues (g : κ → α → α) : (t.mapValues g).lookup k = (t.lookup k).map (g k) := by
  ext v
  simp only [Option.map_eq_some_iff, ←mem_entries_iff, mapValues, List.mem_map]
  constructor
  · rintro ⟨⟨k', w⟩, he, h⟩
    injection h with h₁ h₂
    subst h₁
    exact ⟨w, he, h₂⟩
  · rintro ⟨w, he, rfl⟩
    exact ⟨_, he, rfl⟩

theorem entries_eq (t : Table κ α) :
    t.entries = t.keys.filterMap fun k => (t.lookup k).map fun v => ⟨k, v⟩ := by
  have h : ∀ e ∈ t.entries, ((t.lookup e.1).map fun v => (⟨e.1, v⟩ : Σ _ : κ, α)) = some e := by
    intro e he
    simp [mem_entries_iff.mp he]
  rw [keys, List.keys, List.filterMap_map]
  exact (List.filterMap_some.symm.trans (List.filterMap_congr fun e he => (h e he).symm))

-- Tables with the same keys in the same order and the same values are the same.
theorem ext_lookup (hk : t.keys = t'.keys) (h : ∀ k, t.lookup k = t'.lookup k) : t = t' := by
  apply ext
  rw [entries_eq t, entries_eq t', hk]
  simp only [h]

omit [DecidableEq κ] in
@[simp]
theorem keys_mapValues (g : κ → α → α) : (t.mapValues g).keys = t.keys := map_keys g t.entries

@[simp]
theorem mem_mapValues (g : κ → α → α) : k ∈ t.mapValues g ↔ k ∈ t := by
  rw [←lookup_isSome, ←lookup_isSome, lookup_mapValues, Option.isSome_map]

theorem lookup_orInsert :
    (t.orInsert k v).lookup k' =
      if k' = k ∧ t.lookup k = none then some v else t.lookup k' := by
  by_cases hk : k ∈ t
  case pos =>
    have : t.lookup k ≠ none := mt lookup_eq_none.mp (not_not.mpr hk)
    simp [orInsert, hk, this]
  case neg =>
    have hn : t.lookup k = none := lookup_eq_none.mpr hk
    by_cases h : k' = k
    case pos => subst h; simp [orInsert, hk, hn]
    case neg => simp [orInsert, hk, h, lookup_insert_ne h]

theorem lookup_update {g : α → α} :
    (t.update k g).lookup k' = if k' = k then (t.lookup k).map g else t.lookup k' := by
  unfold update
  by_cases h : k' = k
  case pos =>
    subst h
    cases hk : t.lookup k' <;> simp [hk]
  case neg => cases t.lookup k <;> simp [h, lookup_insert_ne h]

@[simp]
theorem mem_update {g : α → α} : k' ∈ t.update k g ↔ k' ∈ t := by
  rw [←lookup_isSome, ←lookup_isSome, lookup_update]
  split
  case isTrue h => rw [h, Option.isSome_map]
  case isFalse => rfl

-- Values filed under keys of their own.
def Keyed (key : α → κ) (t : Table κ α) : Prop := ∀ ⦃k v⦄, t.lookup k = some v → key v = k

namespace Keyed

variable {key : α → κ}

theorem insert (h : t.Keyed key) (hv : key v = k) : (t.insert k v).Keyed key := by
  intro k' w hw
  cases lookup_insert_iff.mp hw
  case inl hw => rw [←hw.right, hv, hw.left]
  case inr hw => exact h hw.right

theorem update {g : α → α} (h : t.Keyed key) (hg : ∀ v, key (g v) = key v) :
    (t.update k g).Keyed key := by
  intro k' w hw
  rw [lookup_update] at hw
  split at hw
  case isTrue he =>
    have ⟨v, hv, hw⟩ := Option.map_eq_some_iff.mp hw
    rw [←hw, hg, he, h hv]
  case isFalse => exact h hw

theorem mapValues {g : κ → α → α} (h : t.Keyed key) (hg : ∀ k v, key (g k v) = key v) :
    (t.mapValues g).Keyed key := by
  intro k w hw
  have ⟨v, hv, hw⟩ := Option.map_eq_some_iff.mp ((lookup_mapValues g).symm.trans hw)
  rw [←hw, hg, h hv]

theorem foldl {β : Type} {f : Table κ α → β → Table κ α} (h : t.Keyed key)
    (hf : ∀ {t} o, t.Keyed key → (f t o).Keyed key) (os : List β) : (os.foldl f t).Keyed key := by
  induction os generalizing t
  case nil => exact h
  case cons o _ hi => exact hi (hf o h)

end Keyed

section

variable {β : Type} {key : β → κ} {g : β → α → α}

theorem lookup_foldl_update (os : List β) (h : ∀ o ∈ os, key o ≠ k) :
    (os.foldl (fun t o => t.update (key o) (g o)) t).lookup k = t.lookup k := by
  induction os generalizing t
  case nil => rfl
  case cons o os hi =>
    rw [List.foldl_cons, hi fun o' ho => h o' (by simp [ho]), lookup_update]
    simp [(h o (by simp)).symm]

theorem mem_foldl_update (os : List β) :
    k ∈ os.foldl (fun t o => t.update (key o) (g o)) t ↔ k ∈ t := by
  induction os generalizing t
  case nil => rfl
  case cons hi => simp [hi]

-- Changing values one after another comes to copying what they finally are: a value is final once
-- its last change was made, and the others are overwritten.
theorem foldl_copy {os : List β} (hk : t'.keys = t.keys)
    (h : ∀ k, (∀ o ∈ os, key o ≠ k) → t'.lookup k = t.lookup k) :
    os.foldl (fun c o => c.copy (os.foldl (fun t o => t.update (key o) (g o)) t) (key o)) t' =
      os.foldl (fun t o => t.update (key o) (g o)) t := by
  suffices hs : ∀ {fin}, fin = os.foldl (fun t o => t.update (key o) (g o)) t →
      os.foldl (fun c o => c.copy fin (key o)) t' = fin from hs rfl
  intro fin hf
  induction os generalizing t t'
  case nil => exact hf ▸ ext_lookup hk fun k => h k (by simp)
  case cons o os hi =>
    have hm : key o ∈ fin ↔ key o ∈ t := by rw [hf]; exact mem_foldl_update _
    refine hi ?_ ?_ hf
    · cases ht : t.lookup (key o)
      case none =>
        have : fin.lookup (key o) = none := by
          rwa [lookup_eq_none, hm, ←lookup_eq_none]
        simp [copy, update, this, ht, hk]
      case some v =>
        have ⟨w, hw⟩ := mem_iff_lookup.mp (hm.mpr (mem_of_lookup ht))
        simp [copy, update, hw, ht, hk]
    · intro k hk'
      by_cases he : key o = k
      case pos =>
        subst he
        have hl : fin.lookup (key o) = (t.update (key o) (g o)).lookup (key o) := by
          rw [hf]
          exact lookup_foldl_update os hk'
        cases hn : fin.lookup (key o)
        case some v => simp [copy, hn, ←hl]
        case none =>
          have ht : t.lookup (key o) = none := by
            rw [lookup_eq_none, ←hm, ←lookup_eq_none]
            exact hn
          have ht' : t'.lookup (key o) = none := by
            rwa [lookup_eq_none, mem_keys, hk, ←mem_keys, ←lookup_eq_none]
          simp [copy, update, hn, ht, ht']
      case neg =>
        have hc : (t'.copy fin (key o)).lookup k = t'.lookup k := by
          unfold copy
          split <;> simp [lookup_insert_ne (Ne.symm he)]
        rw [hc, lookup_update, if_neg (Ne.symm he)]
        exact h k (by simpa [he] using hk')

end

omit [DecidableEq κ] in
theorem mapValues_mapValues (g g' : κ → α → α) :
    (t.mapValues g).mapValues g' = t.mapValues fun k v => g' k (g k v) := by
  apply ext
  simp [mapValues, Function.comp_def]

theorem mapValues_congr {g g' : κ → α → α} (h : ∀ k v, t.lookup k = some v → g k v = g' k v) :
    t.mapValues g = t.mapValues g' := by
  apply ext
  refine List.map_congr_left fun e he => ?_
  rw [h e.1 e.2 <| mem_entries_iff.mp he]

omit [DecidableEq κ] in
@[simp]
theorem mapValues_id : (t.mapValues fun _ v => v) = t := by
  apply ext
  simp [mapValues]

omit [DecidableEq κ] in
theorem foldl_mapValues {os : List β} {g : β → κ → α → α} :
    os.foldl (fun t o => t.mapValues (g o)) t =
      t.mapValues fun k v => os.foldl (fun v o => g o k v) v := by
  induction os generalizing t
  case nil => simp
  case cons hi => simp [hi, mapValues_mapValues]

theorem total_insert : (t.insert k v).total f = f k v + (t.erase k).total f := by
  simp [total, entries_insert, erase]

theorem entries_perm_erase (h : t.lookup k = some v) : t.entries.Perm (⟨k, v⟩ :: (t.erase k).entries) := by
  have hm := mem_entries_iff.mpr h
  have hi : t.entries.Perm ((t.erase k).insert k v).entries := by
    refine (List.perm_ext_iff_of_nodup ?_ ?_).mpr ?_
    · exact t.nodupKeys.nodup
    · exact ((t.erase k).insert k v).nodupKeys.nodup
    · rintro ⟨k', w⟩
      rw [mem_entries_iff, mem_entries_iff, lookup_insert_iff, lookup_erase_iff]
      by_cases hk : k' = k
      case pos => subst hk; simp [h]
      case neg => simp [hk]
  rwa [entries_insert_of_notMem (by simp [mem_erase])] at hi

theorem total_erase (h : t.lookup k = some v) : (t.erase k).total f = t.total f - f k v := by
  have := (entries_perm_erase h).map (fun e => f e.1 e.2) |>.sum_eq
  simp only [total, this, List.map_cons, List.sum_cons]
  omega

theorem erase_of_lookup_none (h : t.lookup k = none) : t.erase k = t := by
  apply ext
  exact List.kerase_of_notMem_keys <| mem_keys.not.mp <| lookup_eq_none.mp h

-- Replacing an entry exchanges its contribution.
theorem total_replace (h : t.lookup k = some w) :
    (t.insert k v).total f = t.total f - f k w + f k v := by
  rw [total_insert, total_erase h]
  omega

theorem total_insert_new (h : t.lookup k = none) : (t.insert k v).total f = t.total f + f k v := by
  rw [total_insert, erase_of_lookup_none h]
  omega

theorem total_insert' : (t.insert k v).total f =
    t.total f - ((t.lookup k).map (f k)).getD 0 + f k v := by
  cases h : t.lookup k
  case none => simp [total_insert_new h]
  case some w => simp [total_replace h]

theorem total_orInsert_of_zero (h : f k v = 0) : (t.orInsert k v).total f = t.total f := by
  by_cases hk : k ∈ t
  case pos => simp [orInsert, hk]
  case neg => simp [orInsert, hk, total_insert_new (lookup_eq_none.mpr hk), h]

-- Erasing what contributes nothing.
theorem total_erase_of_zero (h : ∀ v, t.lookup k = some v → f k v = 0) :
    (t.erase k).total f = t.total f := by
  cases hl : t.lookup k
  case none => rw [erase_of_lookup_none hl]
  case some v => rw [total_erase hl, h v hl, sub_zero]

theorem total_foldl_erase {ks : List κ} (h : ∀ k ∈ ks, ∀ v, t.lookup k = some v → f k v = 0) :
    (ks.foldl (fun t k => t.erase k) t).total f = t.total f := by
  induction ks generalizing t
  case nil => rfl
  case cons k ks hi =>
    rw [List.foldl_cons, hi, total_erase_of_zero (h k (by simp))]
    intro k' hk v hv
    exact h k' (by simp [hk]) v (lookup_erase_iff.mp hv).right

omit [DecidableEq κ] in
theorem sum_values_filter (p : α → Bool) (f : α → Int) :
    ((t.values.filter p).map f).sum = t.total fun _ v => if p v then f v else 0 := by
  simp only [values, total]
  induction t.entries
  case nil => rfl
  case cons e _ hi => by_cases h : p e.2 <;> simp [h, hi]

theorem total_congr (h : ∀ k v, t.lookup k = some v → f k v = g k v) : t.total f = t.total g := by
  refine congrArg List.sum <| List.map_congr_left fun e he => ?_
  exact h e.1 e.2 <| mem_entries_iff.mp he

omit [DecidableEq κ] in
theorem total_retain (p : κ → α → Bool) :
    (t.retain p).total f = t.total fun k v => if p k v then f k v else 0 := by
  simp only [total, retain]
  induction t.entries
  case nil => rfl
  case cons e _ hi => by_cases h : p e.1 e.2 <;> simp [h, hi]

omit [DecidableEq κ] in
theorem total_mapValues (g : κ → α → α) :
    (t.mapValues g).total f = t.total fun k v => f k (g k v) := by
  simp [total, mapValues, Function.comp_def]

omit [DecidableEq κ] in
theorem total_add : t.total (fun k v => f k v + g k v) = t.total f + t.total g :=
  List.sum_map_add

theorem total_le (h : ∀ k v, t.lookup k = some v → f k v ≤ g k v) : t.total f ≤ t.total g := by
  refine List.sum_le_sum fun e he => ?_
  exact h e.1 e.2 <| mem_entries_iff.mp he

theorem total_nonneg (h : ∀ k v, t.lookup k = some v → 0 ≤ f k v) : 0 ≤ t.total f := by
  refine List.sum_nonneg fun x hx => ?_
  have ⟨e, he, hx⟩ := List.mem_map.mp hx
  exact hx ▸ h e.1 e.2 (mem_entries_iff.mp he)

-- One entry's contribution is at most the whole.
theorem le_total (h : ∀ k v, t.lookup k = some v → 0 ≤ f k v) (hk : t.lookup k = some v) :
    f k v ≤ t.total f := by
  have he := total_erase (f := f) hk
  have : 0 ≤ (t.erase k).total f :=
    total_nonneg fun _ _ h' => h _ _ (lookup_erase_iff.mp h').right
  omega

-- What has no more under any key comes to no more.
theorem total_le_of_lookup (hf : ∀ k v, t.lookup k = some v → 0 ≤ f k v)
    (h : ∀ k v, t'.lookup k = some v → f k v ≤ ((t.lookup k).map (f k)).getD 0) :
    t'.total f ≤ t.total f := by
  induction t' using insertRec generalizing t
  case H0 => exact total_nonneg hf
  case IH k v t' hk hi =>
    have hnone : t'.lookup k = none := lookup_eq_none.mpr hk
    have hle := h k v (lookup_insert _)
    have herase : t'.total f ≤ (t.erase k).total f := by
      refine hi (fun k' w hw => hf k' w (lookup_erase_iff.mp hw).right) fun k' w hw => ?_
      have hne : k' ≠ k := by
        rintro rfl
        simp [hnone] at hw
      rw [lookup_erase_ne hne]
      exact h k' w ((lookup_insert_ne hne).trans hw)
    rw [total_insert_new hnone]
    cases ht : t.lookup k
    case none =>
      rw [erase_of_lookup_none ht] at herase
      simp only [ht, Option.map_none, Option.getD_none] at hle
      omega
    case some w =>
      rw [total_erase ht] at herase
      simp only [ht, Option.map_some, Option.getD_some] at hle
      omega

theorem total_eq_zero (h : ∀ k v, t.lookup k = some v → f k v = 0) : t.total f = 0 := by
  rw [total_congr (g := fun _ _ => 0) h]
  simp [total]

end AList
