import Superkiro.Lib.Search
import Superkiro.Lib.Slices

-- Replacing a needle where it's found, if what comes before is as wanted.
namespace Rewriting

open Search

variable {α : Type*}

-- What comes after `before`, and what becomes of it.
inductive Rewritten (wanted : List α → Bool) (needle new : List α) :
    List α → List α → List α → Prop
  | kept {before s} :
    (∀ a b, s = a ++ needle ++ b → ¬wanted (before ++ a)) → Rewritten wanted needle new before s s
  | replaced {before x y t} :
    (∀ a b, x = a ++ needle ++ b → ¬wanted (before ++ a)) → wanted (before ++ x) →
    Rewritten wanted needle new (before ++ x ++ needle) y t →
    Rewritten wanted needle new before (x ++ needle ++ y) (x ++ new ++ t)

-- No end of `r` is a beginning of `q` or the other way around, where one of them starts within the
-- other. What comes in front of `r` ends as `ends` says.
structure Apart (ends : List α → Bool) (q r : List α) : Prop where
  within : ∀ m w, r = m ++ w → w ≠ [] → ¬w <+: q ∧ ¬q <+: w
  across : ∀ u v, q = u ++ v → u ≠ [] → v ≠ [] → ends u → ¬v <+: r ∧ ¬r <+: v

variable {wanted : List α → Bool} {needle new before before' s s' t t' x y a b q r : List α} {c : α}

namespace Rewritten

-- Without anything to be replaced all stays.
theorem eq_self (h : Rewritten wanted needle new before s t)
    (hn : ∀ a b, s = a ++ needle ++ b → ¬wanted (before ++ a)) : t = s := by
  cases h
  case kept => rfl
  case replaced x y t _ hw _ => exact absurd hw (hn x y rfl)

theorem congr (h : Rewritten wanted needle new before s t)
    (hb : ∀ z, wanted (before ++ z) = wanted (before' ++ z)) :
    Rewritten wanted needle new before' s t := by
  induction h generalizing before'
  case kept before s hn => exact .kept fun a b he => hb a ▸ hn a b he
  case replaced before x y t hn hw _ hi =>
    refine .replaced (fun a b he => hb a ▸ hn a b he) (hb x ▸ hw) (hi fun z => ?_)
    rw [List.append_assoc, List.append_assoc, hb, List.append_assoc, List.append_assoc]

theorem unique (hu : Unbordered needle) (h : Rewritten wanted needle new before s t)
    (h' : Rewritten wanted needle new before s' t') (hs : s = s') : t = t' := by
  induction h generalizing s' t'
  case kept before s hn =>
    subst hs
    exact (h'.eq_self hn).symm
  case replaced before x y t hn hw h hi =>
    cases h'
    case kept hn' => exact absurd hw (hn' x y hs.symm)
    case replaced x' y' t' hn' hw' h' =>
      obtain hl | hl | hl := Nat.lt_trichotomy x.length x'.length
      case inl =>
        have ⟨m, hm, _⟩ := hu.later hs hl
        exact absurd hw (hn' x m hm)
      case inr.inl =>
        rw [List.append_assoc, List.append_assoc] at hs
        have ⟨hx, hy⟩ := List.append_inj hs hl
        subst hx
        rw [hi h' (List.append_cancel_left hy)]
      case inr.inr =>
        have ⟨m, hm, _⟩ := hu.later hs.symm hl
        exact absurd hw' (hn x' m hm)

end Rewritten

-- An occurrence of a needle without `c` is on one side of it.
theorem split_at (hn : needle ≠ []) (hc : c ∉ needle) (h : x ++ c :: y = a ++ needle ++ b) :
    (∃ b', x = a ++ needle ++ b') ∨ ∃ a', a = x ++ c :: a' ∧ y = a' ++ needle ++ b := by
  rw [List.append_assoc] at h
  obtain ⟨m, ha, hm⟩ | ⟨m, hx, hm⟩ := List.append_eq_append_iff.mp h
  case inl =>
    cases m
    case nil =>
      cases needle
      case nil => exact absurd rfl hn
      case cons d ds =>
        have hd : d = c := (List.cons.inj hm).left.symm
        exact absurd (hd ▸ List.mem_cons_self) hc
    case cons d m =>
      have ⟨hd, hy⟩ := List.cons.inj hm
      subst hd
      exact .inr ⟨m, ha, hy.trans (List.append_assoc ..).symm⟩
  case inr =>
    obtain ⟨n, hn', _⟩ | ⟨n, hn', hy⟩ := List.append_eq_append_iff.mp hm
    case inl => exact .inl ⟨n, by rw [hx, hn', List.append_assoc]⟩
    case inr =>
      cases n
      case nil =>
        refine .inl ⟨[], ?_⟩
        rw [List.append_nil] at hn' ⊢
        rw [hx, hn']
      case cons d n =>
        have hd : c = d := (List.cons.inj hy).left
        exact absurd (by rw [hn', hd]; simp) hc

-- What's on both sides of `c` is replaced on its own.
theorem Rewritten.append (hn : needle ≠ []) (hc : c ∉ needle)
    (hl : ∀ z y, wanted (z ++ c :: y) = wanted y) (h : Rewritten wanted needle new before x t)
    (h' : Rewritten wanted needle new [] y t') :
    Rewritten wanted needle new before (x ++ c :: y) (t ++ c :: t') := by
  induction h
  case kept before x hk =>
    cases h'
    case kept hk' =>
      refine .kept fun a b he => ?_
      obtain ⟨b', hx⟩ | ⟨a', ha, hy⟩ := split_at hn hc he
      · exact hk a b' hx
      · rw [ha, ← List.append_assoc, hl]
        exact hk' a' b hy
    case replaced x' y' t' hk' hw' h' =>
      have hs : x ++ c :: (x' ++ needle ++ y') = (x ++ c :: x') ++ needle ++ y' := by simp
      have ht : x ++ c :: (x' ++ new ++ t') = (x ++ c :: x') ++ new ++ t' := by simp
      rw [hs, ht]
      refine .replaced (fun a b he => ?_) ?_ (h'.congr fun z => ?_)
      · obtain ⟨b', hx⟩ | ⟨a', ha, hy⟩ := split_at hn hc he
        · exact hk a b' hx
        · rw [ha, ← List.append_assoc, hl]
          exact hk' a' b hy
      · rw [← List.append_assoc, hl]
        exact hw'
      · have he : before ++ (x ++ c :: x') ++ needle ++ z =
            (before ++ x) ++ c :: (x' ++ needle ++ z) := by simp
        rw [he, hl]
        simp
  case replaced before x y' t hk hw _ hi =>
    have hs : x ++ needle ++ y' ++ c :: y = x ++ needle ++ (y' ++ c :: y) := by simp
    have ht : x ++ new ++ t ++ c :: t' = x ++ new ++ (t ++ c :: t') := by simp
    rw [hs, ht]
    exact .replaced hk hw hi

theorem prefix_or (h : a <+: r ++ b) : a <+: r ∨ r <+: a :=
  List.prefix_or_prefix_of_prefix h (List.prefix_append r b)

section Apart

variable {ends : List α → Bool}

-- Where `q` isn't read across `r`, it's on one side of it.
theorem Apart.side (h : Apart ends q r) (hr : r ≠ [])
    (he : ∀ u, u ≠ [] → u <:+ a → ends u) (hq : a ++ r ++ b = x ++ q ++ y) :
    (∃ m, a = x ++ q ++ m) ∨ ∃ m, x = a ++ r ++ m ∧ b = m ++ q ++ y := by
  rw [List.append_assoc, List.append_assoc] at hq
  obtain ⟨m, hx, hm⟩ | ⟨m, ha, hm⟩ := List.append_eq_append_iff.mp hq
  case inl =>
    obtain ⟨n, hn, hb⟩ | ⟨w, hw, hy⟩ := List.append_eq_append_iff.mp hm
    case inl => exact .inr ⟨n, by rw [hx, hn, List.append_assoc], by rw [hb, List.append_assoc]⟩
    case inr =>
      by_cases hw' : w = []
      case pos =>
        subst hw'
        rw [List.append_nil] at hw
        exact .inr ⟨[], by rw [hx, hw, List.append_nil], by simpa using hy.symm⟩
      case neg =>
        have ⟨h₁, h₂⟩ := h.within m w hw hw'
        have hp : q <+: w ++ b := ⟨y, hy⟩
        exact ((prefix_or hp).elim h₂ h₁).elim
  case inr =>
    obtain ⟨n, hn, _⟩ | ⟨v, hv, hb⟩ := List.append_eq_append_iff.mp hm
    case inl => exact .inl ⟨n, by rw [ha, hn, List.append_assoc]⟩
    case inr =>
      by_cases hv' : v = []
      case pos =>
        subst hv'
        rw [List.append_nil] at hv
        exact .inl ⟨[], by rw [ha, hv, List.append_nil]⟩
      case neg =>
        have hp : v <+: r ++ b := ⟨y, hb.symm⟩
        by_cases hm' : m = []
        case pos =>
          subst hm'
          rw [List.nil_append] at hv
          subst hv
          have ⟨h₁, h₂⟩ := h.within [] r rfl hr
          exact ((prefix_or hp).elim h₂ h₁).elim
        case neg =>
          have ⟨h₁, h₂⟩ := h.across m v hv hm' hv' (he m hm' ⟨x, ha.symm⟩)
          exact ((prefix_or hp).elim h₁ h₂).elim

-- Where `q` is in what text has become, it's where nothing was replaced.
theorem Rewritten.site (ok : List α → Bool)
    (h : Rewritten wanted needle new before s t) (ha : Apart ends q new)
    (hr : new ≠ []) (he : ∀ z u, wanted z → u ≠ [] → u <:+ z → ends u)
    (hl : ∀ z z' y, ok (z ++ new ++ y) = ok (z' ++ needle ++ y)) (ht : t = a ++ q ++ b)
    (hok : ok (before ++ a)) :
    ∃ p part rest a' b', s = p ++ part ++ rest ∧ part = a' ++ q ++ b' ∧
      ok (before ++ p ++ a') ∧
      ∀ a b, part = a ++ needle ++ b → ¬wanted (before ++ p ++ a) := by
  induction h generalizing a
  case kept before s hk =>
    exact ⟨[], s, [], a, b, by simp, ht, by simpa using hok, by simpa using hk⟩
  case replaced before x y t hk hw _ hi =>
    have hends (u : List α) (hu : u ≠ []) (hx : u <:+ x) : ends u :=
      he (before ++ x) u hw hu (hx.trans (List.suffix_append ..))
    obtain ⟨m, hx⟩ | ⟨m, hx, hb⟩ := ha.side hr hends ht
    case inl =>
      exact ⟨[], x, needle ++ y, a, m, by simp, hx, by simpa using hok, by simpa using hk⟩
    case inr =>
      have hok' : ok (before ++ x ++ needle ++ m) := by
        rw [← hl (before ++ x) (before ++ x), List.append_assoc, List.append_assoc,
          ← List.append_assoc x, ← hx]
        exact hok
      have ⟨p, part, rest, a', b', hs, hpart, ho, hn⟩ := hi hb hok'
      refine ⟨x ++ needle ++ p, part, rest, a', b', ?_, hpart, ?_, ?_⟩
      · rw [hs]
        simp
      · rw [← List.append_assoc, ← List.append_assoc]
        exact ho
      · intro a b hab
        rw [← List.append_assoc, ← List.append_assoc]
        exact hn a b hab

-- Nothing that's wanted is left.
theorem Rewritten.settled (h : Rewritten wanted needle new [] s t) (ha : Apart ends needle new)
    (hr : new ≠ []) (he : ∀ z u, wanted z → u ≠ [] → u <:+ z → ends u)
    (hl : ∀ z z' y, wanted (z ++ new ++ y) = wanted (z' ++ needle ++ y)) :
    ∀ a b, t = a ++ needle ++ b → ¬wanted a := by
  intro a b ht hw
  have ⟨p, part, _, a', b', _, hpart, ho, hn⟩ := h.site wanted ha hr he hl ht hw
  exact hn a' b' hpart ho

variable [DecidableEq α]

def overlaps (q r : List α) : Bool := q.isPrefixOf r || r.isPrefixOf q

def checkWithin (q : List α) : List α → Bool
  | []      => true
  | c :: cs => !overlaps q (c :: cs) && checkWithin q cs

def checkAcross (ends : List α → Bool) (r : List α) : (before : List α) → List α → Bool
  | _, []           => true
  | before, c :: cs =>
    !(ends before && overlaps r (c :: cs)) && checkAcross ends r (before ++ [c]) cs

theorem overlaps_eq_false : overlaps q r = false ↔ ¬r <+: q ∧ ¬q <+: r := by
  rw [overlaps, Bool.or_eq_false_iff, ← Bool.not_eq_true, ← Bool.not_eq_true,
    List.isPrefixOf_iff_prefix, List.isPrefixOf_iff_prefix, and_comm]

theorem checkWithin_iff :
    checkWithin q r ↔ ∀ m w, r = m ++ w → w ≠ [] → ¬w <+: q ∧ ¬q <+: w := by
  induction r
  case nil => simp [checkWithin]
  case cons c cs hi =>
    rw [checkWithin, Bool.and_eq_true, hi, Bool.not_eq_true', overlaps_eq_false]
    constructor
    · intro ⟨h, hs⟩ m w he hw
      cases m
      case nil =>
        rw [List.nil_append] at he
        exact he ▸ h
      case cons d m => exact hs m w (List.cons.inj he).right hw
    · intro h
      exact ⟨h [] _ rfl (by simp), fun m w he hw => h (c :: m) w (by rw [he]; rfl) hw⟩

theorem checkAcross_iff : checkAcross ends r before q ↔
    ∀ u v, q = u ++ v → v ≠ [] → ends (before ++ u) → ¬v <+: r ∧ ¬r <+: v := by
  induction q generalizing before
  case nil => simp [checkAcross]
  case cons c cs hi =>
    rw [checkAcross, Bool.and_eq_true, hi, Bool.not_eq_true', Bool.and_eq_false_imp,
      overlaps_eq_false]
    constructor
    · intro ⟨h, hs⟩ u v he hv hb
      cases u
      case nil =>
        rw [List.nil_append] at he
        rw [List.append_nil] at hb
        exact he ▸ h hb
      case cons d u =>
        have ⟨hd, hcs⟩ := List.cons.inj he
        subst hd
        exact hs u v hcs hv (by simpa using hb)
    · intro h
      refine ⟨fun hb => h [] _ rfl (by simp) (by simpa using hb), fun u v he hv hb => ?_⟩
      exact h (c :: u) v (by rw [he]; rfl) hv (by simpa using hb)

def checkApart (ends : List α → Bool) (q r : List α) : Bool :=
  match q with
  | []      => false
  | c :: cs => checkWithin (c :: cs) r && checkAcross ends r [c] cs

theorem apart_of_check (h : checkApart ends q r) : Apart ends q r := by
  cases q
  case nil => cases h
  case cons c cs =>
    have ⟨hw, ha⟩ := Bool.and_eq_true_iff.mp h
    refine ⟨checkWithin_iff.mp hw, fun u v he hu hv hb => ?_⟩
    cases u
    case nil => exact absurd rfl hu
    case cons d u =>
      have ⟨hd, hcs⟩ := List.cons.inj he
      subst hd
      exact checkAcross_iff.mp ha u v hcs hv hb

end Apart

section Replace

variable [DecidableEq α]

-- The occurrences of a needle that don't overlap are replaced from left to right. The next `skip`
-- elements are part of the last one.
def replaceFrom (needle new : List α) : (skip : Nat) → List α → List α
  | _, []             => []
  | skip + 1, _ :: cs => replaceFrom needle new skip cs
  | 0, c :: cs        =>
    if needle <+: c :: cs then new ++ replaceFrom needle new (needle.length - 1) cs
    else c :: replaceFrom needle new 0 cs

def replace (needle new s : List α) : List α := replaceFrom needle new 0 s

theorem replaceFrom_skip {k : Nat} (h : k ≤ s.length) :
    replaceFrom needle new k s = replace needle new (s.drop k) := by
  induction s generalizing k
  case nil =>
    have hk : k = 0 := Nat.le_zero.mp h
    subst hk
    rfl
  case cons c cs hi =>
    cases k
    case zero => rfl
    case succ k => exact hi (Nat.le_of_succ_le_succ h)

theorem replace_none (h : ¬needle <:+: s) : replace needle new s = s := by
  induction s
  case nil => rfl
  case cons c cs hi =>
    rw [List.infix_cons_iff, not_or] at h
    have hi : replaceFrom needle new 0 cs = cs := hi h.right
    rw [replace, replaceFrom, if_neg h.left, hi]

theorem replace_split (hn : needle ≠ []) (h : splitOnce needle s = some (x, y)) :
    replace needle new s = x ++ new ++ replace needle new y := by
  induction s generalizing x
  case nil =>
    rw [splitOnce, if_neg hn] at h
    cases h
  case cons c cs hi =>
    rw [splitOnce] at h
    split at h
    case isTrue hp =>
      cases h
      have hl := List.length_pos_of_ne_nil hn
      have hc : needle.length - 1 ≤ cs.length := by
        have := hp.length_le
        rw [List.length_cons] at this
        omega
      obtain ⟨n, hm⟩ := Nat.exists_eq_add_one.mpr hl
      rw [hm, Nat.add_sub_cancel] at hc
      rw [replace, replaceFrom, if_pos hp, hm, Nat.add_sub_cancel, replaceFrom_skip hc,
        List.drop_succ_cons]
      rfl
    case isFalse hp =>
      obtain ⟨r, hr, he⟩ := Option.map_eq_some_iff.mp h
      cases he
      have hi : replaceFrom needle new 0 cs = _ := hi hr
      rw [replace, replaceFrom, if_neg hp, hi]
      rfl

theorem rewritten_replace (hn : needle ≠ []) (before s : List α) :
    Rewritten (fun _ => true) needle new before s (replace needle new s) := by
  cases hs : splitOnce needle s
  case none =>
    have hi := splitOnce_none.mp hs
    rw [replace_none hi]
    exact .kept fun a b he => absurd ⟨a, b, he.symm⟩ hi
  case some r =>
    have ⟨x, y⟩ := r
    have he := splitOnce_eq hs
    have hlt : y.length < s.length := by
      have := List.length_pos_of_ne_nil hn
      rw [he, List.length_append, List.length_append]
      omega
    rw [replace_split hn hs, he]
    exact .replaced (fun a b hx => absurd ⟨a, b, hx.symm⟩ (not_infix_before hn hs)) rfl
      (rewritten_replace hn _ y)
  termination_by s.length

theorem replace_apart (ha : Apart (fun _ => true) q new) (hn : needle ≠ []) (hr : new ≠ [])
    (h : q <:+: replace needle new s) : q <:+: s := by
  have ⟨a, b, ht⟩ := h
  have ⟨p, part, rest, a', b', hs, hp, _⟩ := (rewritten_replace hn [] s).site
    (fun _ => true) ha hr (fun _ _ _ _ _ => rfl) (fun _ _ _ => rfl) ht.symm rfl
  exact ⟨p ++ a', b' ++ rest, by rw [hs, hp]; simp⟩

theorem replace_settled (ha : Apart (fun _ => true) needle new) (hn : needle ≠ [])
    (hr : new ≠ []) : ¬needle <:+: replace needle new s := by
  intro ⟨a, b, ht⟩
  exact (rewritten_replace hn [] s).settled ha hr (fun _ _ _ _ _ => rfl) (fun _ _ _ => rfl) a b
    ht.symm rfl

theorem replace_append (hu : Unbordered needle) (hn : needle ≠ []) (hc : c ∉ needle) :
    replace needle new (x ++ c :: y) = replace needle new x ++ c :: replace needle new y :=
  (rewritten_replace hn [] _).unique hu
    (.append hn hc (fun _ _ => rfl) (rewritten_replace hn [] x) (rewritten_replace hn [] y)) rfl

end Replace

section ReplaceWhere

open String (utf8Len)

open Slices

-- One occurrence is copied or replaced, after what wasn't copied yet.
def replaceOne (wanted : List Char → Option Bool) (needle new content : List Char)
    (state : List Char × Nat) (found : List Char × List Char) : Option (List Char × Nat) := do
  let (replaced, copied) := state
  let start := utf8Len found.1
  let before ← sliceTo start content
  if ← wanted before then
    let kept ← slice copied start content
    return (replaced ++ kept ++ new, start + utf8Len needle)
  else return state

-- The occurrences of a needle after what's wanted are replaced, in one pass over the bytes.
def replaceWhere (wanted : List Char → Option Bool) (needle new content : List Char) :
    Option (List Char) := do
  let (replaced, copied) ←
    (matchIndices needle content).foldlM (replaceOne wanted needle new content) ([], 0)
  let rest ← sliceFrom copied content
  return replaced ++ rest

variable {asks : List Char → Option Bool} {wanted : List Char → Bool}
  {needle new content done kept s x y : List Char}

theorem matchesFrom_split {before : List Char} (hn : needle ≠ [])
    (h : splitOnce needle s = some (x, y)) : matchesFrom needle before 0 s =
      (before ++ x, y) :: matchesFrom needle (before ++ x ++ needle) 0 y := by
  induction s generalizing before x
  case nil =>
    rw [splitOnce, if_neg hn] at h
    cases h
  case cons c cs hi =>
    by_cases hp : needle <+: c :: cs
    case pos =>
      have hs := eq_append_of_prefix hp
      rw [splitOnce, if_pos hp] at h
      cases h
      conv_lhs => rw [hs]
      rw [matchesFrom_needle hn, List.append_nil]
    case neg =>
      rw [splitOnce, if_neg hp] at h
      obtain ⟨r, hr, he⟩ := Option.map_eq_some_iff.mp h
      cases he
      rw [matchesFrom, if_neg hp, hi hr, List.append_assoc, List.singleton_append]

theorem replaceOne_eq (ha : ∀ z, asks z = some (wanted z)) (hc : content = done ++ kept ++ s)
    (replaced : List Char) (y : List Char) :
    replaceOne asks needle new content (replaced, utf8Len done) (done ++ kept, y) =
      some (if wanted (done ++ kept) then
        (replaced ++ kept ++ new, utf8Len (done ++ kept ++ needle)) else (replaced, utf8Len done)) := by
  have ht : sliceTo (utf8Len (done ++ kept)) content = some (done ++ kept) := by
    rw [hc, sliceTo_append]
  have hk : slice (utf8Len done) (utf8Len (done ++ kept)) content = some kept := by
    rw [hc, slice_append]
  simp only [replaceOne, ht, ha, hk, Option.bind_eq_bind, Option.bind_some]
  split
  case isTrue => rw [String.utf8Len_append (done ++ kept)]; rfl
  case isFalse => rfl

theorem exists_of_le {a b : List Char} (h : kept ++ s = a ++ needle ++ b)
    (hl : kept.length ≤ a.length) : ∃ a', a = kept ++ a' ∧ s = a' ++ needle ++ b := by
  rw [List.append_assoc] at h
  obtain ⟨m, ha, hs⟩ | ⟨m, hk, hs⟩ := List.append_eq_append_iff.mp h
  case inl => exact ⟨m, ha, by rw [hs, List.append_assoc]⟩
  case inr =>
    have hm : m = [] := by
      rw [hk, List.length_append] at hl
      exact List.length_eq_zero_iff.mp (by omega)
    subst hm
    refine ⟨[], ?_, ?_⟩
    · rw [List.append_nil, hk, List.append_nil]
    · rw [List.nil_append, hs, List.nil_append]

-- `kept` is what wasn't copied yet of what was passed.
theorem replaceOne_foldlM {done kept s : List Char} (hu : Unbordered needle) (hn : needle ≠ [])
    (ha : ∀ z, asks z = some (wanted z)) (hc : content = done ++ kept ++ s)
    (hk : ∀ a b, kept ++ s = a ++ needle ++ b → a.length < kept.length → ¬wanted (done ++ a))
    (replaced : List Char) : ∃ replaced' copied rest t,
      (matchesFrom needle (done ++ kept) 0 s).foldlM (replaceOne asks needle new content)
        (replaced, utf8Len done) = some (replaced', copied) ∧
      sliceFrom copied content = some rest ∧ replaced' ++ rest = replaced ++ t ∧
      Rewritten wanted needle new done (kept ++ s) t := by
  cases hs : splitOnce needle s
  case none =>
    have hi := splitOnce_none.mp hs
    rw [(matchesFrom_nil hn).mpr hi]
    refine ⟨replaced, utf8Len done, kept ++ s, kept ++ s, rfl, ?_, rfl, .kept fun a b he => ?_⟩
    · rw [hc, List.append_assoc, sliceFrom_append]
    · by_cases hl : a.length < kept.length
      case pos => exact hk a b he hl
      case neg =>
        have ⟨a', _, hs⟩ := exists_of_le he (Nat.le_of_not_lt hl)
        exact absurd ⟨a', b, hs.symm⟩ hi
  case some r =>
    have ⟨x, y⟩ := r
    have hxy := splitOnce_eq hs
    have hlt : y.length < s.length := by
      have := List.length_pos_of_ne_nil hn
      rw [hxy, List.length_append, List.length_append]
      omega
    have hc' : content = done ++ (kept ++ x) ++ (needle ++ y) := by
      rw [hc, hxy]
      simp
    rw [matchesFrom_split hn hs, List.foldlM_cons, List.append_assoc done, replaceOne_eq ha hc',
      Option.bind_eq_bind, Option.bind_some]
    by_cases hw : wanted (done ++ (kept ++ x))
    case pos =>
      rw [if_pos hw]
      have hcont : content = (done ++ (kept ++ x) ++ needle) ++ [] ++ y := by
        rw [hc']
        simp
      have ⟨replaced', copied, rest, t, hf, hr, he, ht⟩ :=
        replaceOne_foldlM hu hn ha hcont (fun _ _ _ h => absurd h (Nat.not_lt_zero _))
          (replaced ++ (kept ++ x) ++ new)
      rw [List.append_nil] at hf
      refine ⟨replaced', copied, rest, kept ++ x ++ new ++ t, hf, hr, by rw [he]; simp, ?_⟩
      have hks : kept ++ s = kept ++ x ++ needle ++ y := by
        rw [hxy]
        simp
      rw [hks]
      refine .replaced (fun a b hx => ?_) hw ht
      by_cases hl : a.length < kept.length
      case pos =>
        refine hk a (b ++ needle ++ y) ?_ hl
        rw [hks, hx]
        simp
      case neg =>
        have ⟨a', _, hx⟩ := exists_of_le hx (Nat.le_of_not_lt hl)
        exact absurd ⟨a', b, hx.symm⟩ (not_infix_before hn hs)
    case neg =>
      rw [if_neg hw]
      have hcont : content = done ++ (kept ++ x ++ needle) ++ y := by
        rw [hc']
        simp
      have hk' (a b : List Char) (he : kept ++ x ++ needle ++ y = a ++ needle ++ b)
          (hl : a.length < (kept ++ x ++ needle).length) : ¬wanted (done ++ a) := by
        have hks : kept ++ s = a ++ needle ++ b := by
          rw [← he, hxy]
          simp
        by_cases hl' : a.length < kept.length
        case pos => exact hk a b hks hl'
        case neg =>
          have ⟨a', ha', hs'⟩ := exists_of_le hks (Nat.le_of_not_lt hl')
          obtain hlt | heq := Nat.lt_or_eq_of_le (splitOnce_first hs hs')
          case inl =>
            have ⟨m, hm, _⟩ := hu.later (hxy.symm.trans hs') hlt
            simp only [ha', hm, List.length_append] at hl
            omega
          case inr =>
            have hx : x = a' := by
              have he := hxy.symm.trans hs'
              rw [List.append_assoc, List.append_assoc] at he
              exact (List.append_inj he heq).left
            rwa [ha', ← hx]
      have ⟨replaced', copied, rest, t, hf, hr, he, ht⟩ :=
        replaceOne_foldlM hu hn ha hcont hk' replaced
      have happend : done ++ (kept ++ x) ++ needle = done ++ (kept ++ x ++ needle) := by simp
      rw [happend]
      refine ⟨replaced', copied, rest, t, hf, hr, he, ?_⟩
      have hks : kept ++ s = kept ++ x ++ needle ++ y := by
        rw [hxy]
        simp
      rwa [hks]
  termination_by s.length

theorem replaceWhere_rewritten (hu : Unbordered needle) (hn : needle ≠ [])
    (ha : ∀ z, asks z = some (wanted z)) (content : List Char) :
    ∃ t, replaceWhere asks needle new content = some t ∧
      Rewritten wanted needle new [] content t := by
  have hc : content = [] ++ [] ++ content := rfl
  obtain ⟨replaced, copied, rest, t, hf, hr, he, ht⟩ : ∃ replaced copied rest t,
      (matchIndices needle content).foldlM (replaceOne asks needle new content) ([], 0) =
        some (replaced, copied) ∧ sliceFrom copied content = some rest ∧
      replaced ++ rest = [] ++ t ∧ Rewritten wanted needle new [] ([] ++ content) t :=
    replaceOne_foldlM hu hn ha hc (fun _ _ _ h => absurd h (Nat.not_lt_zero _)) []
  refine ⟨t, ?_, ht⟩
  simp only [replaceWhere, hf, Option.bind_eq_bind, Option.bind_some, hr]
  exact congrArg some he

theorem rewritten_of_replaceWhere {t : List Char} (hu : Unbordered needle) (hn : needle ≠ [])
    (ha : ∀ z, asks z = some (wanted z)) (h : replaceWhere asks needle new s = some t) :
    Rewritten wanted needle new [] s t := by
  obtain ⟨u, hu', ht⟩ : ∃ u, replaceWhere asks needle new s = some u ∧
      Rewritten wanted needle new [] s u := replaceWhere_rewritten hu hn ha s
  cases hu'.symm.trans h
  exact ht

theorem replaceWhere_append {c : Char} {t t' : List Char} (hu : Unbordered needle)
    (hn : needle ≠ []) (hc : c ∉ needle) (ha : ∀ z, asks z = some (wanted z))
    (hl : ∀ z y, wanted (z ++ c :: y) = wanted y)
    (hx : replaceWhere asks needle new x = some t) (hy : replaceWhere asks needle new y = some t') :
    replaceWhere asks needle new (x ++ c :: y) = some (t ++ c :: t') := by
  have hx' := rewritten_of_replaceWhere hu hn ha hx
  have hy' := rewritten_of_replaceWhere hu hn ha hy
  obtain ⟨u, hu', ht⟩ : ∃ u, replaceWhere asks needle new (x ++ c :: y) = some u ∧
      Rewritten wanted needle new [] (x ++ c :: y) u := replaceWhere_rewritten hu hn ha _
  rw [hu', ht.unique hu (.append hn hc hl hx' hy') rfl]

end ReplaceWhere

end Rewriting
