import Superkiro.Lib.Table
import Superkiro.Lib.Text

-- Images that were shrunk before. Those that were used least recently are forgotten first.
namespace Translate

def shrinkCacheEntries : Nat := 4096

def shrinkCacheBytes : Nat := 64 * 1024 * 1024

-- SHA-256 of an image's raw bytes.
abbrev Digest := Vector UInt8 32

structure CacheEntry where
  -- There's no value of an image whose pixels can't be decoded.
  value    : Option String
  lastUsed : Nat

def CacheEntry.size (entry : CacheEntry) : Nat := entry.value.elim 0 Text.len + 64

structure ShrinkCache where
  entries : Table Digest CacheEntry := ∅
  bytes   : Nat := 0
  clock   : Nat := 0

-- A difference that doesn't underflow.
def minus? (n m : Nat) : Option Nat := if m ≤ n then some (n - m) else none

namespace ShrinkCache

variable (c : ShrinkCache)

-- The clock counts in 64 bits.
def tick : ShrinkCache := { c with clock := (c.clock + 1) % 2 ^ 64 }

def get (key : Digest) : Option (Option String) × ShrinkCache :=
  let c := c.tick
  match c.entries.lookup key with
  | none       => (none, c)
  | some entry =>
    (some entry.value, { c with
      entries := c.entries.insert key { entry with lastUsed := c.clock } })

def exceeds : Bool := shrinkCacheBytes < c.bytes || shrinkCacheEntries < c.entries.entries.length

def oldest : Option (Σ _ : Digest, CacheEntry) := c.entries.entries.argmin (·.2.lastUsed)

theorem lookup_of_oldest {e : Σ _ : Digest, CacheEntry} (h : c.oldest = some e) :
    c.entries.lookup e.1 = some e.2 :=
  AList.mem_entries_iff.mp (List.argmin_mem h)

def evict (c : ShrinkCache) : Option ShrinkCache :=
  if c.exceeds then
    match _h : c.oldest with
    | none   => some c
    | some e => do
      let bytes ← minus? c.bytes e.2.size
      evict { c with entries := c.entries.erase e.1, bytes }
  else some c
termination_by c.entries.entries.length
decreasing_by
  have hp := AList.entries_perm_erase (c.lookup_of_oldest _h)
  rw [hp.length_eq, List.length_cons]
  exact Nat.lt_succ_self _

def replace (key : Digest) (entry : CacheEntry) : Option ShrinkCache := do
  let bytes := c.bytes + entry.size
  let bytes ←
    match c.entries.lookup key with
    | none     => some bytes
    | some old => minus? bytes old.size
  return { c with entries := c.entries.insert key entry, bytes }

-- There's no cache where its bytes underflow.
def insert (key : Digest) (value : Option String) : Option ShrinkCache :=
  let c := c.tick
  let entry := ⟨value, c.clock⟩
  if shrinkCacheBytes < entry.size then some c
  else do
    let c ← c.replace key entry
    c.evict

end ShrinkCache

inductive CacheOp
  | get (key : Digest)
  | insert (key : Digest) (value : Option String)

def ShrinkCache.step (c : ShrinkCache) : CacheOp → Option ShrinkCache
  | .get key          => some (c.get key).2
  | .insert key value => c.insert key value

-- The calls up to a time, the last one first.
abbrev History := List CacheOp

-- The cache after the calls.
def History.cache : History → Option ShrinkCache
  | []          => some {}
  | op :: older => cache older >>= (·.step op)

-- A value that isn't taken for its size.
def Refused (value : Option String) : Prop := shrinkCacheBytes < (⟨value, 0⟩ : CacheEntry).size

instance (value : Option String) : Decidable (Refused value) := Nat.decLt _ _

namespace History

-- The value last inserted for a key.
def inserted (key : Digest) : History → Option (Option String)
  | []                     => none
  | .get _ :: older        => inserted key older
  | .insert k value :: older => if k = key then some value else inserted key older

-- The value last inserted for a key that was taken.
def taken (key : Digest) : History → Option (Option String)
  | []                     => none
  | .get _ :: older        => taken key older
  | .insert k value :: older =>
    if k = key ∧ ¬Refused value then some value else taken key older

-- When a key was last used.
def lastUse (key : Digest) : History → Nat
  | []                     => 0
  | .get k :: older        => if k = key then older.length + 1 else lastUse key older
  | .insert k value :: older =>
    if k = key ∧ ¬Refused value then older.length + 1 else lastUse key older

end History

namespace ShrinkCache

variable {c c' : ShrinkCache} {key k : Digest} {entry e : CacheEntry} {value : Option String}

-- The bytes are those of the entries.
def Accounted (c : ShrinkCache) : Prop := (c.bytes : Int) = c.entries.total fun _ e => e.size

-- Some of the entries are more than a limit.
def Over (t : Table Digest CacheEntry) (p : Digest → CacheEntry → Bool) : Prop :=
  (shrinkCacheBytes : Int) < t.total (fun k e => if p k e then e.size else 0) ∨
  (shrinkCacheEntries : Int) < t.total fun k e => if p k e then 1 else 0

theorem length_eq_total {t : Table Digest CacheEntry} :
    (t.entries.length : Int) = t.total fun _ _ => 1 := by
  simp [AList.total]

theorem exceeds_iff (h : c.Accounted) : c.exceeds = true ↔ Over c.entries fun _ _ => true := by
  simp only [exceeds, Over, if_true, Bool.or_eq_true, decide_eq_true_eq]
  rw [← h, ← length_eq_total, Int.ofNat_lt, Int.ofNat_lt]

theorem exceeds_eq_false : c.exceeds = false ↔
    c.bytes ≤ shrinkCacheBytes ∧ c.entries.entries.length ≤ shrinkCacheEntries := by
  simp only [exceeds, Bool.or_eq_false_iff, decide_eq_false_iff_not, Nat.not_lt]

-- What's evicted is more than a limit together with all that was used since, and all that was
-- used before is evicted too.
structure Evicted (c c' : ShrinkCache) : Prop where
  clock  : c'.clock = c.clock
  kept   : ∀ {k e}, c'.entries.lookup k = some e → c.entries.lookup k = some e
  needed : ∀ {k e}, c.entries.lookup k = some e → c'.entries.lookup k = none →
    Over c.entries fun _ e' => e.lastUsed ≤ e'.lastUsed
  oldest : ∀ {k e k₂ e₂}, c.entries.lookup k = some e → c'.entries.lookup k = none →
    c.entries.lookup k₂ = some e₂ → e₂.lastUsed < e.lastUsed → c'.entries.lookup k₂ = none

theorem Evicted.refl : Evicted c c where
  clock  := rfl
  kept h := h
  needed h hn := by cases h.symm.trans hn
  oldest h hn := by cases h.symm.trans hn

-- Less is over a limit where there's less.
theorem Over.of_erase {t : Table Digest CacheEntry} {p : Digest → CacheEntry → Bool}
    (hl : t.lookup key = some entry) (h : Over (t.erase key) p) : Over t p := by
  have hs := AList.total_erase (f := fun k e => if p k e then (e.size : Int) else 0) hl
  have hc := AList.total_erase (f := fun k e => if p k e then (1 : Int) else 0) hl
  obtain h | h := h
  case inl =>
    refine .inl (h.trans_le ?_)
    rw [hs]
    split <;> omega
  case inr =>
    refine .inr (h.trans_le ?_)
    rw [hc]
    split <;> omega

theorem Over.congr {t : Table Digest CacheEntry} {p q : Digest → CacheEntry → Bool}
    (hpq : ∀ k e, t.lookup k = some e → p k e = q k e) (h : Over t p) : Over t q := by
  have hs : t.total (fun k e => if p k e then (e.size : Int) else 0) =
      t.total fun k e => if q k e then e.size else 0 :=
    AList.total_congr fun k e hl => by rw [hpq k e hl]
  have hc : t.total (fun k e => if p k e then (1 : Int) else 0) =
      t.total fun k e => if q k e then 1 else 0 :=
    AList.total_congr fun k e hl => by rw [hpq k e hl]
  rw [Over, ← hs, ← hc]
  exact h

theorem minus?_eq_some {n m : Nat} (h : m ≤ n) : minus? n m = some (n - m) := if_pos h

-- Without the oldest entry the bytes don't underflow.
theorem Accounted.size_le (h : c.Accounted) (hl : c.entries.lookup key = some entry) :
    entry.size ≤ c.bytes := by
  have hs := AList.le_total (f := fun _ e => (e.size : Int)) (fun _ _ _ => Int.natCast_nonneg _) hl
  rw [← h] at hs
  exact Int.ofNat_le.mp hs

theorem Accounted.erase (h : c.Accounted) (hl : c.entries.lookup key = some entry) :
    { c with entries := c.entries.erase key, bytes := c.bytes - entry.size }.Accounted := by
  rw [Accounted, AList.total_erase hl, ← h]
  exact Int.ofNat_sub (h.size_le hl)

theorem oldest_le {o : Σ _ : Digest, CacheEntry} (ho : c.oldest = some o)
    (hl : c.entries.lookup k = some e) : o.2.lastUsed ≤ e.lastUsed := by
  have hm : (⟨k, e⟩ : Σ _ : Digest, CacheEntry) ∈ c.entries.entries := AList.mem_entries_iff.mpr hl
  exact List.le_of_mem_argmin (f := fun x : Σ _ : Digest, CacheEntry => x.2.lastUsed) hm ho

-- One entry more is evicted, the oldest one.
theorem Evicted.cons {e : Σ _ : Digest, CacheEntry} {bytes : Nat} (ha : c.Accounted)
    (hx : c.exceeds = true) (ho : c.oldest = some e)
    (h : Evicted { c with entries := c.entries.erase e.1, bytes } c') : Evicted c c' where
  clock   := h.clock
  kept hl := (AList.lookup_erase_iff.mp (h.kept hl)).2
  needed {k e'} hl hn := by
    by_cases hk : k = e.1
    case pos =>
      -- All entries are at least as new as the oldest one.
      have he : e' = e.2 := Option.some.inj (hl.symm.trans (hk ▸ c.lookup_of_oldest ho))
      refine Over.congr ?_ ((exceeds_iff ha).mp hx)
      intro k₂ e₂ hl₂
      exact (decide_eq_true (he ▸ oldest_le ho hl₂)).symm
    case neg =>
      exact (h.needed (AList.lookup_erase_iff.mpr ⟨hk, hl⟩) hn).of_erase (c.lookup_of_oldest ho)
  oldest {k e' k₂ e₂} hl hn hl₂ hlt := by
    by_cases hk₂ : k₂ = e.1
    case pos =>
      cases hn₂ : c'.entries.lookup k₂
      case none => rfl
      case some => exact absurd hk₂ (AList.lookup_erase_iff.mp (h.kept hn₂)).1
    case neg =>
      by_cases hk : k = e.1
      case pos =>
        have he : e' = e.2 := Option.some.inj (hl.symm.trans (hk ▸ c.lookup_of_oldest ho))
        exact absurd (he ▸ hlt) (Nat.not_lt.mpr (oldest_le ho hl₂))
      case neg =>
        exact h.oldest (AList.lookup_erase_iff.mpr ⟨hk, hl⟩) hn
          (AList.lookup_erase_iff.mpr ⟨hk₂, hl₂⟩) hlt

theorem evict_spec (h : c.Accounted) :
    ∃ c', c.evict = some c' ∧ c'.Accounted ∧ c'.exceeds = false ∧ Evicted c c' := by
  induction c using evict.induct
  case case1 c he ho =>
    have hn := List.argmin_eq_none.mp ho
    have hz : ¬c.exceeds = true := by
      rw [exceeds_iff h, Over, AList.total, AList.total, hn]
      decide
    exact absurd he hz
  case case2 c he e ho hi =>
    have hl := c.lookup_of_oldest ho
    obtain ⟨c', hc', ha, hx, ev⟩ := hi (c.bytes - e.2.size) (h.erase hl)
    refine ⟨c', ?_, ha, hx, ev.cons h he ho⟩
    rw [evict, if_pos he]
    split
    case h_1 hn => cases ho.symm.trans hn
    case h_2 e' he' =>
      cases ho.symm.trans he'
      rw [minus?_eq_some (h.size_le hl)]
      exact hc'
  case case3 c he =>
    refine ⟨c, ?_, h, Bool.eq_false_iff.mpr he, .refl⟩
    rw [evict, if_neg he]

theorem replace_spec (h : c.Accounted) : ∃ c', c.replace k e = some c' ∧
    c'.entries = c.entries.insert k e ∧ c'.clock = c.clock ∧ c'.Accounted := by
  rw [replace]
  cases hl : c.entries.lookup k
  case none =>
    refine ⟨_, rfl, rfl, rfl, ?_⟩
    rw [Accounted, AList.total_insert_new hl, ← h]
    rfl
  case some old =>
    have hle := h.size_le hl
    have hm : minus? (c.bytes + e.size) old.size = some (c.bytes + e.size - old.size) :=
      minus?_eq_some (by omega)
    simp only [hm]
    refine ⟨_, rfl, rfl, rfl, ?_⟩
    rw [Accounted, AList.total_replace hl, ← h]
    simp only
    omega

-- A cache after some calls.
structure After (h : History) (c : ShrinkCache) : Prop where
  accounted : c.Accounted
  within    : c.exceeds = false
  clock     : c.clock = h.length % 2 ^ 64
  values    : ∀ {k e}, c.entries.lookup k = some e → h.taken k = some e.value
  used      : ∀ {k e}, c.entries.lookup k = some e → e.lastUsed = h.lastUse k % 2 ^ 64

variable {h : History}

theorem After.init : After [] {} where
  accounted := rfl
  within    := rfl
  clock     := rfl
  values h  := by cases h
  used h    := by cases h

theorem After.tick_clock (a : After h c) : c.tick.clock = (h.length + 1) % 2 ^ 64 := by
  rw [tick, a.clock, Nat.mod_add_mod]

-- A key that's got is used, and stays what it is.
theorem After.get (a : After h c) : After (.get key :: h) (c.get key).2 := by
  rw [ShrinkCache.get]
  cases hl : c.entries.lookup key
  case none =>
    simp only [tick, hl]
    exact {
      accounted := a.accounted
      within    := a.within
      clock     := a.tick_clock
      values    := a.values
      used      := by
        intro k e hk
        have hne : key ≠ k := by
          rintro rfl
          cases hl.symm.trans hk
        rw [History.lastUse, if_neg hne]
        exact a.used hk
    }
  case some entry =>
    have hlt : c.tick.entries.lookup key = some entry := hl
    simp only [hlt]
    have hs : (⟨entry.value, c.tick.clock⟩ : CacheEntry).size = entry.size := rfl
    have hn : (c.entries.insert key ⟨entry.value, c.tick.clock⟩).entries.length =
        c.entries.entries.length := by
      have ht := AList.total_replace (f := fun _ _ => 1) (v := ⟨entry.value, c.tick.clock⟩) hl
      rw [← length_eq_total, ← length_eq_total] at ht
      omega
    exact {
      accounted := by
        have ht := AList.total_replace (f := fun _ e => (e.size : Int))
          (v := ⟨entry.value, c.tick.clock⟩) hl
        have ha := a.accounted
        rw [Accounted] at ha ⊢
        rw [hs, ← ha] at ht
        simp only [tick] at ht ⊢
        omega
      within    := by
        have hw := exceeds_eq_false.mp a.within
        exact exceeds_eq_false.mpr ⟨hw.1, hn.trans_le hw.2⟩
      clock     := a.tick_clock
      values    := by
        intro k e hk
        rw [History.taken]
        obtain ⟨rfl, rfl⟩ | ⟨-, hk⟩ := AList.lookup_insert_iff.mp hk
        case inl =>
          have hv := a.values hl
          exact hv
        case inr => exact a.values hk
      used      := by
        intro k e hk
        rw [History.lastUse]
        obtain ⟨rfl, rfl⟩ | ⟨hne, hk⟩ := AList.lookup_insert_iff.mp hk
        case inl =>
          rw [if_pos rfl]
          exact a.tick_clock
        case inr =>
          rw [if_neg (Ne.symm hne)]
          exact a.used hk
    }

-- A value that's refused changes nothing.
theorem insert_of_refused (hr : Refused value) : c.insert key value = some c.tick :=
  if_pos hr

theorem After.refused (a : After h c) (hr : Refused value) :
    After (.insert key value :: h) c.tick where
  accounted := a.accounted
  within    := a.within
  clock     := a.tick_clock
  values {k e} hk := by
    rw [History.taken, if_neg fun ht => ht.2 hr]
    exact a.values hk
  used {k e} hk := by
    rw [History.lastUse, if_neg fun ht => ht.2 hr]
    exact a.used hk

-- A value that's taken is put in place of an older one, and then the oldest entries are evicted.
theorem After.insert (a : After h c) (key : Digest) (hr : ¬Refused value) :
    ∃ before after, c.tick.replace key ⟨value, c.tick.clock⟩ = some before ∧
      c.insert key value = some after ∧ Evicted before after ∧
      (∀ {k e}, before.entries.lookup k = some e →
        e.lastUsed = History.lastUse k (.insert key value :: h) % 2 ^ 64) ∧
      After (.insert key value :: h) after := by
  have ht : c.tick.Accounted := a.accounted
  have ⟨before, hb, he, hc, hba⟩ := replace_spec (k := key) (e := ⟨value, c.tick.clock⟩) ht
  have ⟨after, hev, haa, hx, ev⟩ := evict_spec hba
  have hi : c.insert key value = some after := by
    have hs : ¬shrinkCacheBytes < (⟨value, c.tick.clock⟩ : CacheEntry).size := hr
    rw [ShrinkCache.insert]
    refine (if_neg hs).trans ?_
    rw [hb]
    exact hev
  have hu : ∀ {k e}, before.entries.lookup k = some e →
      e.lastUsed = History.lastUse k (.insert key value :: h) % 2 ^ 64 := by
    intro k e hk
    rw [he] at hk
    rw [History.lastUse]
    obtain ⟨rfl, rfl⟩ | ⟨hne, hk⟩ := AList.lookup_insert_iff.mp hk
    case inl =>
      rw [if_pos ⟨rfl, hr⟩]
      exact a.tick_clock
    case inr =>
      rw [if_neg fun h' => hne h'.1.symm]
      exact a.used hk
  refine ⟨before, after, hb, hi, ev, hu, ?_⟩
  exact {
    accounted := haa
    within    := hx
    clock     := by
      rw [ev.clock, hc]
      exact a.tick_clock
    values    := by
      intro k e hk
      have hk := ev.kept hk
      rw [he] at hk
      rw [History.taken]
      obtain ⟨rfl, rfl⟩ | ⟨hne, hk⟩ := AList.lookup_insert_iff.mp hk
      case inl => exact if_pos ⟨rfl, hr⟩
      case inr =>
        rw [if_neg fun h' => hne h'.1.symm]
        exact a.values hk
    used      := fun hk => hu (ev.kept hk)
  }

-- The cache after any calls.
theorem exists_after (h : History) : ∃ c, h.cache = some c ∧ After h c := by
  induction h
  case nil => exact ⟨{}, rfl, .init⟩
  case cons op h hi =>
    have ⟨c, hc, a⟩ := hi
    rw [History.cache, hc, Option.bind_eq_bind, Option.bind_some]
    cases op
    case get key => exact ⟨_, rfl, a.get⟩
    case insert key value =>
      by_cases hr : Refused value
      case pos => exact ⟨_, insert_of_refused hr, a.refused hr⟩
      case neg =>
        have ⟨_, after, _, hi, _, _, aa⟩ := a.insert key hr
        exact ⟨after, hi, aa⟩

-- An answer is the value last inserted.
def Answers (c : ShrinkCache) (h : History) (key : Digest) : Prop :=
  ∀ value, (c.get key).1 = some value → h.inserted key = some value

-- What's evicted is more than a limit together with all that was used since, and all that was
-- used before is evicted too.
structure LeastRecent (use : Digest → Nat) (c c' : ShrinkCache) : Prop where
  kept   : ∀ {k e}, c'.entries.lookup k = some e → c.entries.lookup k = some e
  needed : ∀ {k e}, c.entries.lookup k = some e → c'.entries.lookup k = none →
    Over c.entries fun k' _ => use k ≤ use k'
  oldest : ∀ {k e k₂ e₂}, c.entries.lookup k = some e → c'.entries.lookup k = none →
    c.entries.lookup k₂ = some e₂ → use k₂ < use k → c'.entries.lookup k₂ = none

theorem Evicted.leastRecent {use : Digest → Nat} (ev : Evicted c c')
    (hu : ∀ {k e}, c.entries.lookup k = some e → e.lastUsed = use k) : LeastRecent use c c' where
  kept := ev.kept
  needed hl hn := by
    apply Over.congr _ (ev.needed hl hn)
    intro k' e' hl'
    rw [hu hl, hu hl']
  oldest hl hn hl₂ hlt := by
    apply ev.oldest hl hn hl₂
    rwa [hu hl, hu hl₂]

theorem get_fst : (c.get key).1 = (c.entries.lookup key).map (·.value) := by
  rw [get]
  cases hl : c.entries.lookup key
  all_goals
    have ht : c.tick.entries.lookup key = _ := hl
    simp only [ht, Option.map]

theorem lookup_get_eq_none :
    (c.get key).2.entries.lookup k = none ↔ c.entries.lookup k = none := by
  rw [get]
  cases hl : c.entries.lookup key
  all_goals have ht : c.tick.entries.lookup key = _ := hl
  case none =>
    simp only [ht]
    rfl
  case some entry =>
    simp only [ht]
    by_cases hk : k = key
    case pos =>
      rw [hk, AList.lookup_insert, hl]
      exact iff_of_false nofun nofun
    case neg =>
      rw [AList.lookup_insert_ne hk]
      rfl

end ShrinkCache

namespace History

variable {h : History} {key : Digest} {value : Option String}

-- The value last inserted was refused.
def RefusedLast (h : History) (key : Digest) : Prop :=
  ∃ value, h.inserted key = some value ∧ Refused value

theorem not_refused_of_taken (ht : h.taken key = some value) : ¬Refused value := by
  induction h
  case nil => cases ht
  case cons op h hi =>
    cases op
    case get => exact hi ht
    case insert k v =>
      rw [taken] at ht
      split at ht
      case isTrue hk =>
        cases ht
        exact hk.2
      case isFalse => exact hi ht

theorem taken_eq_inserted (hr : ¬h.RefusedLast key) : h.taken key = h.inserted key := by
  induction h
  case nil => rfl
  case cons op h hi =>
    cases op
    case get => exact hi hr
    case insert k v =>
      rw [taken, inserted]
      rw [RefusedLast, inserted] at hr
      by_cases hk : k = key
      case pos =>
        rw [if_pos hk] at hr ⊢
        exact if_pos ⟨hk, fun hv => hr ⟨v, rfl, hv⟩⟩
      case neg =>
        rw [if_neg hk] at hr ⊢
        rw [if_neg fun h' => hk h'.1]
        exact hi hr

theorem lastUse_le : h.lastUse key ≤ h.length := by
  induction h
  case nil => exact le_rfl
  case cons op h hi =>
    cases op
    all_goals
      rw [lastUse, List.length_cons]
      split
      case isTrue  => exact le_rfl
      case isFalse => exact hi.trans (Nat.le_succ _)

end History

namespace ShrinkCache

variable {h : History} {c : ShrinkCache} {key : Digest}

-- An answer is a value that was taken, and so the one last inserted unless that was refused.
theorem After.answers_iff (a : After h c) :
    c.Answers h key ↔ c.entries.lookup key = none ∨ ¬h.RefusedLast key := by
  rw [Answers, get_fst]
  cases hl : c.entries.lookup key
  case none => exact iff_of_true nofun (.inl rfl)
  case some entry =>
    have ht := a.values hl
    constructor
    case mp =>
      refine fun ha => .inr ?_
      rintro ⟨value, hi, hr⟩
      cases hi.symm.trans (ha entry.value rfl)
      exact History.not_refused_of_taken ht hr
    case mpr =>
      rintro (hn | hn) value hv
      · cases hn
      · cases hv
        rw [← History.taken_eq_inserted hn]
        exact ht

end ShrinkCache

-- The bytes are counted right over any calls. What's evicted is what was used least recently, as
-- long as the clock doesn't wrap. An answer is the value last inserted, unless that was refused
-- and an older one is still there.
theorem shrinkCache_accounts (h : History) :
    ∃ c, h.cache = some c ∧
      c.Accounted ∧ c.bytes ≤ shrinkCacheBytes ∧
      c.entries.entries.length ≤ shrinkCacheEntries ∧
      (∀ key, c.Answers h key ↔ c.entries.lookup key = none ∨ ¬h.RefusedLast key) ∧
      (∀ key k, (c.get key).2.entries.lookup k = none ↔ c.entries.lookup k = none) ∧
      ∀ key value,
        (Refused value → c.insert key value = some c.tick) ∧
        (¬Refused value → ∃ before after,
          c.tick.replace key ⟨value, c.tick.clock⟩ = some before ∧
          c.insert key value = some after ∧
          (h.length + 1 < 2 ^ 64 → ShrinkCache.LeastRecent
            (History.lastUse · (.insert key value :: h)) before after)) := by
  have ⟨c, hc, a⟩ := ShrinkCache.exists_after h
  have ⟨hb, hn⟩ := ShrinkCache.exceeds_eq_false.mp a.within
  refine ⟨c, hc, a.accounted, hb, hn, ?_, ?_, ?_⟩
  · exact fun key => a.answers_iff
  · exact fun key k => ShrinkCache.lookup_get_eq_none
  · refine fun key value => ⟨ShrinkCache.insert_of_refused, fun hr => ?_⟩
    have ⟨before, after, hb, hi, ev, hu, _⟩ := a.insert key hr
    refine ⟨before, after, hb, hi, fun hlt => ev.leastRecent fun {k e} hl => ?_⟩
    have hle : History.lastUse k (.insert key value :: h) ≤ h.length + 1 := History.lastUse_le
    exact (hu hl).trans (Nat.mod_eq_of_lt (hle.trans_lt hlt))

-- A text of some length.
def padding (n : Nat) : String := .ofList (List.replicate n 'x')

theorem len_padding (n : Nat) : Text.len (padding n) = n := by
  rw [Text.len, padding, String.utf8ByteSize_ofList]
  induction n
  case zero => rfl
  case succ n hi =>
    rw [List.replicate_succ, String.utf8Len_cons, hi]
    rfl

theorem refused_padding {n : Nat} (h : shrinkCacheBytes ≤ n) : Refused (some (padding n)) := by
  rw [Refused, CacheEntry.size, Option.elim, len_padding]
  exact Nat.lt_add_right_iff_pos.mpr (by decide) |>.trans_le (Nat.add_le_add_right h 64)

theorem padding_ne {n : Nat} (h : 1 < n) : padding n ≠ "a" := by
  intro ha
  have hl := len_padding n
  rw [ha] at hl
  exact absurd (hl ▸ h) (by decide)
theorem stale (key : Digest) {big : String} (hr : Refused (some big)) (hb : big ≠ "a") :
    ∃ c, History.cache [.insert key (some big), .insert key (some "a")] = some c ∧
      (c.get key).1 = some (some "a") ∧
      ¬c.Answers [.insert key (some big), .insert key (some "a")] key := by
  let c : ShrinkCache := {
    entries := (∅ : Table Digest CacheEntry).insert key ⟨some "a", 1⟩
    bytes := 65
    clock := 1
  }
  have hc : History.cache [.insert key (some "a")] = some c := by
    have hx : ¬c.exceeds = true := by
      rw [Bool.not_eq_true, ShrinkCache.exceeds_eq_false]
      exact ⟨Nat.le_of_ble_eq_true rfl, Nat.le_of_ble_eq_true rfl⟩
    have he : c.evict = some c := by rw [ShrinkCache.evict, if_neg hx]
    exact he
  have hg : (c.tick.get key).1 = some (some "a") := by
    rw [ShrinkCache.get_fst]
    exact congrArg _ (AList.lookup_insert _)
  refine ⟨c.tick, ?_, hg, ?_⟩
  · rw [History.cache, hc]
    exact ShrinkCache.insert_of_refused hr
  · intro ha
    have hi := ha _ hg
    rw [History.inserted, if_pos rfl] at hi
    exact hb (Option.some.inj (Option.some.inj hi))

-- The older value is still there when a newer one was refused.
theorem shrinkCache_stale : ∃ (h : History) (key : Digest) (big : String) (c : ShrinkCache),
    h.cache = some c ∧ h.inserted key = some (some big) ∧
    (c.get key).1 = some (some "a") ∧ ¬c.Answers h key := by
  let key : Digest := Vector.replicate 32 0
  have hr : Refused (some (padding shrinkCacheBytes)) := refused_padding le_rfl
  have ⟨c, hc, hg, ha⟩ := stale key hr (padding_ne (by decide))
  exact ⟨_, key, _, c, hc, if_pos rfl, hg, ha⟩

end Translate
