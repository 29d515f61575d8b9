import Superkiro.Gateway.KeyPool
import Superkiro.Lib.RoundRobin

namespace Gateway

open RoundRobin

-- What a key is selected for.
structure Selection where
  now     : Nat
  exclude : List String
  model   : Option String

def ProviderKey.share (key : ProviderKey) : Int := max key.weight 1

-- Where the keys that may be selected are.
def candidates (may : ProviderKey → Bool) (ks : List ProviderKey) : List Nat :=
  (ks.zipIdx.filter (may ·.1)).map (·.2)

def shareAt (ks : List ProviderKey) (i : Nat) : Int := (ks[i]?.map (·.share)).getD 1

-- The first of the greatest current weights among some.
def heaviestOf (c : Nat → Int) : List Nat → Nat
  | []      => 0
  | i :: is => is.foldl (fun best i => if c best < c i then i else best) i

theorem heaviestOf_spec {c : Nat → Int} (i : Nat) (is : List Nat) :
    heaviestOf c (i :: is) ∈ i :: is ∧ ∀ j ∈ i :: is, c j ≤ c (heaviestOf c (i :: is)) := by
  induction is generalizing i
  case nil => simp [heaviestOf]
  case cons k is hi =>
    have hf : heaviestOf c (i :: k :: is) =
        heaviestOf c ((if c i < c k then k else i) :: is) := rfl
    have ⟨hm, hg⟩ := hi (if c i < c k then k else i)
    by_cases h : c i < c k
    case pos =>
      rw [if_pos h] at hm hg hf
      rw [hf]
      refine ⟨List.mem_cons_of_mem _ hm, List.forall_mem_cons.mpr ⟨?_, hg⟩⟩
      exact h.le.trans (hg k List.mem_cons_self)
    case neg =>
      rw [if_neg h] at hm hg hf
      rw [hf]
      have ⟨hi, his⟩ := List.forall_mem_cons.mp hg
      refine ⟨?_, List.forall_mem_cons.mpr ⟨hi, List.forall_mem_cons.mpr ⟨?_, his⟩⟩⟩
      · rcases List.mem_cons.mp hm with hm | hm
        · exact List.mem_cons.mpr (.inl hm)
        · exact List.mem_cons_of_mem _ (List.mem_cons_of_mem _ hm)
      · exact (Int.not_lt.mp h).trans hi

theorem greatest_heaviestOf {is : List Nat} (h : is ≠ []) :
    Greatest is.toFinset (heaviestOf · is) := by
  cases is
  case nil => contradiction
  case cons i is =>
    constructor
    case mem => exact fun c => List.mem_toFinset.mpr (heaviestOf_spec i is).left
    case great => exact fun c j hj => (heaviestOf_spec i is).right j (List.mem_toFinset.mp hj)

theorem nodup_candidates {may : ProviderKey → Bool} {ks : List ProviderKey} :
    (candidates may ks).Nodup := by
  refine List.Nodup.sublist (List.filter_sublist.map _) ?_
  rw [List.zipIdx_map_snd]
  exact List.nodup_range'

theorem mem_candidates {may : ProviderKey → Bool} {ks : List ProviderKey} {i : Nat} :
    i ∈ candidates may ks ↔ ∃ k, ks[i]? = some k ∧ may k := by
  simp only [candidates, List.mem_map, List.mem_filter, List.mem_zipIdx_iff_getElem?]
  constructor
  · rintro ⟨⟨k, j⟩, ⟨hk, hm⟩, rfl⟩
    exact ⟨k, hk, hm⟩
  · rintro ⟨k, hk, hm⟩
    exact ⟨(k, i), ⟨hk, hm⟩, rfl⟩

namespace ProviderKeyPool

def allKeys (pool : ProviderKeyPool) : List ProviderKey := pool.keys.map (·.key)

def weights (pool : ProviderKeyPool) (i : Nat) : Int :=
  (pool.keys[i]?.map (·.currentWeight)).getD 0

-- Selects a key for one purpose after the other.
def selectKeys (pool : ProviderKeyPool) :
    List Selection → List (Except GovernanceError ProviderKey) × ProviderKeyPool
  | []      => ([], pool)
  | q :: qs =>
    let (result, pool) := pool.selectKeyForModel q.now q.exclude q.model
    let (results, pool) := pool.selectKeys qs
    (result :: results, pool)

-- Whether the keys that are eligible for a purpose are those that may be selected.
def Serves (pool : ProviderKeyPool) (may : ProviderKey → Bool) (q : Selection) : Prop :=
  ∀ e ∈ pool.keys, e.eligible q.now q.exclude q.model = may e.key

variable {pool pool' : ProviderKeyPool} {may : ProviderKey → Bool} {q : Selection}

def raisedKeys (pool : ProviderKeyPool) (may : ProviderKey → Bool) : List KeyEntry :=
  pool.keys.map fun e => if may e.key then e.raise else e

-- The entries a selection is made from, and where they are.
def contenders (pool : ProviderKeyPool) (may : ProviderKey → Bool) : List (KeyEntry × Nat) :=
  (pool.raisedKeys may).zipIdx.filter (may ·.1.key)

theorem map_key_raisedKeys : (pool.raisedKeys may).map (·.key) = pool.allKeys := by
  rw [raisedKeys, allKeys, List.map_map]
  refine List.map_congr_left fun e _ => ?_
  rw [Function.comp_apply]
  split <;> rfl

theorem contenders_snd : (pool.contenders may).map (·.2) = candidates may pool.allKeys := by
  rw [candidates, ←map_key_raisedKeys, List.zipIdx_map, List.filter_map, List.map_map, contenders]
  rfl

theorem mem_contenders {p : KeyEntry × Nat} (h : p ∈ pool.contenders may) :
    (pool.raisedKeys may)[p.2]? = some p.1 ∧ may p.1.key :=
  have ⟨hz, hm⟩ := List.mem_filter.mp h
  ⟨List.mem_zipIdx_iff_getElem?.mp hz, hm⟩

theorem raise_weights (i : Nat) :
    raise (candidates may pool.allKeys).toFinset (shareAt pool.allKeys) pool.weights i =
      ((pool.raisedKeys may)[i]?.map (·.currentWeight)).getD 0 := by
  simp only [raise, raisedKeys, List.getElem?_map, weights, List.mem_toFinset, mem_candidates,
    shareAt, allKeys]
  cases pool.keys[i]?
  case none => simp
  case some e =>
    simp only [Option.map_some, Option.some.injEq, exists_eq_left', Option.getD_some]
    split <;> rfl

theorem shareAt_contender {p : KeyEntry × Nat} (h : p ∈ pool.contenders may) :
    shareAt pool.allKeys p.2 = p.1.weight := by
  have hk : pool.allKeys[p.2]? = some p.1.key := by
    rw [←map_key_raisedKeys, List.getElem?_map, (mem_contenders h).left]
    rfl
  rw [shareAt, hk]
  rfl

theorem heaviest_snd {c : Nat → Int} {first : KeyEntry × Nat} {rest : List (KeyEntry × Nat)}
    (h : ∀ p ∈ first :: rest, p.1.currentWeight = c p.2) :
    (heaviest first rest).2 = heaviestOf c ((first :: rest).map (·.2)) := by
  induction rest generalizing first
  case nil => rfl
  case cons e rest hi =>
    have ⟨hf, h⟩ := List.forall_mem_cons.mp h
    have ⟨he, hr⟩ := List.forall_mem_cons.mp h
    have hh : heaviest first (e :: rest) =
        heaviest (if first.1.currentWeight < e.1.currentWeight then e else first) rest := rfl
    rw [hh]
    split
    case isTrue hlt =>
      rw [hi (List.forall_mem_cons.mpr ⟨he, hr⟩)]
      simp only [heaviestOf, List.map_cons, List.foldl_cons, ←hf, ←he, if_pos hlt]
    case isFalse hlt =>
      rw [hi (List.forall_mem_cons.mpr ⟨hf, hr⟩)]
      simp only [heaviestOf, List.map_cons, List.foldl_cons, ←hf, ←he, if_neg hlt]

-- Where the key is that's selected by current weights.
def pickAt (pool : ProviderKeyPool) (may : ProviderKey → Bool) (c : Nat → Int) : Nat :=
  heaviestOf c (candidates may pool.allKeys)

-- What a selection does where some keys may be selected.
theorem selectKeyForModel_turn (ha : pool.provider.enabled) (hs : pool.Serves may q)
    (hn : candidates may pool.allKeys ≠ []) :
    let s := (candidates may pool.allKeys).toFinset
    let pick := pool.pickAt may
    let next := (pool.selectKeyForModel q.now q.exclude q.model).2
    (∃ key, pool.allKeys[pick (raise s (shareAt pool.allKeys) pool.weights)]? = some key ∧
      (pool.selectKeyForModel q.now q.exclude q.model).1 = .ok key) ∧
    next.allKeys = pool.allKeys ∧ next.provider = pool.provider ∧
    next.weights = turn s (shareAt pool.allKeys) pick pool.weights := by
  intro s pick next
  have hr : (pool.keys.map fun e => if e.eligible q.now q.exclude q.model then e.raise else e) =
      pool.raisedKeys may :=
    List.map_congr_left fun e he => by rw [hs e he]
  have hf : (pool.raisedKeys may).zipIdx.filter (·.1.eligible q.now q.exclude q.model) =
      pool.contenders may := by
    refine List.filter_congr fun p hp => ?_
    have ⟨e, he, hp⟩ := List.mem_map.mp (List.fst_mem_of_mem_zipIdx hp)
    have hke : p.1.key = e.key := by rw [←hp]; split <;> rfl
    have hpe : p.1.eligible q.now q.exclude q.model = e.eligible q.now q.exclude q.model := by
      rw [KeyEntry.eligible, KeyEntry.eligible, KeyEntry.usable, KeyEntry.usable, hke]
    rw [hpe, hs e he, hke]
  have hk : (!pool.provider.enabled || pool.keys.isEmpty) = false := by
    rw [ha, Bool.not_true, Bool.false_or, List.isEmpty_eq_false_iff]
    rintro he
    simp [allKeys, he, candidates] at hn
  cases hc : pool.contenders may
  case nil => simp [←contenders_snd, hc] at hn
  case cons first rest =>
    have hsel : pool.selectKeyForModel q.now q.exclude q.model =
        (.ok (heaviest first rest).1.key, { pool with
          keys := (pool.raisedKeys may).modify (heaviest first rest).2 fun entry =>
            { entry with currentWeight :=
                entry.currentWeight - ((first :: rest).map (·.1.weight)).sum } }) := by
      rw [selectKeyForModel, hk, if_neg (by decide)]
      simp only [hr, hf, hc]
    have hm := mem_contenders (hc ▸ heaviest_mem first rest)
    have hw (i : Nat) : raise s (shareAt pool.allKeys) pool.weights i = _ := raise_weights i
    have hp : (heaviest first rest).2 = pick (raise s (shareAt pool.allKeys) pool.weights) := by
      have hcs : (pool.contenders may).map (·.2) = _ := contenders_snd
      rw [hc] at hcs
      have hh := heaviest_snd (c := raise s (shareAt pool.allKeys) pool.weights) fun p hp => by
        rw [hw, (mem_contenders (hc ▸ hp)).left]
        rfl
      rw [hh, hcs]
      rfl
    have ht : ((first :: rest).map (·.1.weight)).sum = total s (shareAt pool.allKeys) := by
      rw [total, List.sum_toFinset _ nodup_candidates, ←contenders_snd, List.map_map, hc]
      refine congrArg List.sum (List.map_congr_left fun p hp => ?_)
      exact (shareAt_contender (hc ▸ hp)).symm
    have hnext : next = { pool with
        keys := (pool.raisedKeys may).modify (pick (raise s (shareAt pool.allKeys) pool.weights))
          fun entry => { entry with
            currentWeight := entry.currentWeight - total s (shareAt pool.allKeys) } } := by
      rw [show next = _ from congrArg (·.2) hsel, ht, hp]
    have hkey (j : Nat) : pool.allKeys[j]? = (pool.raisedKeys may)[j]?.map (·.key) := by
      rw [←List.getElem?_map, map_key_raisedKeys]
    rw [hp] at hm
    generalize hj : pick (raise s (shareAt pool.allKeys) pool.weights) = j at *
    refine ⟨⟨(heaviest first rest).1.key, ?_, congrArg (·.1) hsel⟩, ?_, by rw [hnext], ?_⟩
    · rw [hkey, hm.left]
      rfl
    · refine List.ext_getElem? fun i => ?_
      rw [hkey, hnext, allKeys, List.getElem?_map, List.getElem?_modify,
        Option.map_eq_map, Option.map_map]
      refine congrArg₂ Option.map (funext fun e => ?_) rfl
      simp only [Function.comp_apply]
      split <;> rfl
    · funext i
      rw [hnext, weights, turn, hw, List.getElem?_modify]
      by_cases hi : j = i
      case pos =>
        rw [if_pos (hi.symm.trans hj.symm), ←hi]
        simp [hm.left]
      case neg =>
        rw [if_neg fun he => hi (hj.symm.trans he.symm)]
        simp [hi]

-- Where the key is that's selected nth.
def pickedAt (pool : ProviderKeyPool) (may : ProviderKey → Bool) (n : Nat) : Nat :=
  picked (candidates may pool.allKeys).toFinset (shareAt pool.allKeys) (pool.pickAt may)
    pool.weights n

theorem Serves.of_keys (h : pool.Serves may q) (hk : pool'.allKeys = pool.allKeys) :
    pool'.Serves may q := by
  intro e he
  have hm : e.key ∈ pool.allKeys := hk ▸ List.mem_map_of_mem he
  have ⟨d, hd, hke⟩ := List.mem_map.mp hm
  have := h d hd
  rw [KeyEntry.eligible, KeyEntry.usable] at this ⊢
  rwa [hke] at this

-- What a run of selections does.
theorem selectKeys_turns {qs : List Selection} (ha : pool.provider.enabled)
    (hs : ∀ q ∈ qs, pool.Serves may q) (hn : candidates may pool.allKeys ≠ []) :
    (∃ keys : List ProviderKey, (pool.selectKeys qs).1 = keys.map .ok ∧
      keys.map some = (List.range qs.length).map fun n => pool.allKeys[pool.pickedAt may n]?) ∧
    (pool.selectKeys qs).2.allKeys = pool.allKeys ∧
    (pool.selectKeys qs).2.provider = pool.provider ∧
    (pool.selectKeys qs).2.weights =
      (turn (candidates may pool.allKeys).toFinset (shareAt pool.allKeys)
        (pool.pickAt may))^[qs.length] pool.weights := by
  induction qs generalizing pool
  case nil => exact ⟨⟨[], rfl, rfl⟩, rfl, rfl, rfl⟩
  case cons q qs hi =>
    have ⟨hq, hqs⟩ := List.forall_mem_cons.mp hs
    have ⟨⟨key, hkey, hok⟩, hk, hp, hw⟩ := selectKeyForModel_turn ha hq hn
    have hserves (q' : Selection) (h : q' ∈ qs) :
        (pool.selectKeyForModel q.now q.exclude q.model).2.Serves may q' :=
      (hqs q' h).of_keys hk
    have ⟨⟨keys, hoks, hkeys⟩, hks, hps, hws⟩ := hi (hp ▸ ha) hserves (hk ▸ hn)
    have hpick : (pool.selectKeyForModel q.now q.exclude q.model).2.pickAt may =
        pool.pickAt may := by
      funext c
      rw [pickAt, pickAt, hk]
    have hat (n : Nat) : (pool.selectKeyForModel q.now q.exclude q.model).2.pickedAt may n =
        pool.pickedAt may (n + 1) := by
      rw [pickedAt, pickedAt, picked, picked, Function.iterate_succ_apply, hpick, hk, hw]
    refine ⟨⟨key :: keys, ?_, ?_⟩, hks.trans hk, hps.trans hp, ?_⟩
    · simp only [selectKeys, hoks, hok, List.map_cons]
    · rw [List.map_cons, hkeys, List.length_cons, List.range_succ_eq_map, List.map_cons,
        List.map_map, ←hkey]
      simp only [hat, hk, Function.comp_def]
      rfl
    · rw [List.length_cons, Function.iterate_succ_apply]
      rw [selectKeys]
      refine hws.trans ?_
      rw [hpick, hk, hw]

-- Selections change nothing but current weights.
theorem selectKeyForModel_still {f : KeyEntry → β} {now : Nat} {exclude : List String}
    {model : Option String} (hf : ∀ e w, f { e with currentWeight := w } = f e) :
    (pool.selectKeyForModel now exclude model).2.keys.map f = pool.keys.map f := by
  have hr : (pool.keys.map fun e => if e.eligible now exclude model then e.raise else e).map f =
      pool.keys.map f := by
    rw [List.map_map]
    refine List.map_congr_left fun e _ => ?_
    rw [Function.comp_apply]
    split
    case isTrue => exact hf e _
    case isFalse => rfl
  simp only [selectKeyForModel]
  split
  case isTrue => rfl
  case isFalse =>
    split
    case h_1 => rfl
    case h_2 =>
      refine Eq.trans (List.ext_getElem? fun i => ?_) hr
      rw [List.getElem?_map, List.getElem?_modify, Option.map_eq_map, Option.map_map,
        List.getElem?_map (f := f)]
      refine congrArg₂ Option.map (funext fun e => ?_) rfl
      rw [Function.comp_apply]
      split
      case isTrue => exact hf e _
      case isFalse => rfl

theorem selectKeys_still {f : KeyEntry → β} {qs : List Selection}
    (hf : ∀ e w, f { e with currentWeight := w } = f e) :
    (pool.selectKeys qs).2.keys.map f = pool.keys.map f := by
  induction qs generalizing pool
  case nil => rfl
  case cons q qs hi => exact hi.trans (selectKeyForModel_still hf)

-- A run that leaves current weights as they were leaves the pool as it was.
theorem selectKeys_eq {qs : List Selection} (hp : (pool.selectKeys qs).2.provider = pool.provider)
    (hw : (pool.selectKeys qs).2.weights = pool.weights) : (pool.selectKeys qs).2 = pool := by
  have hs : (pool.selectKeys qs).2.keys.map (fun e => { e with currentWeight := 0 }) =
      pool.keys.map fun e => { e with currentWeight := 0 } :=
    selectKeys_still fun _ _ => rfl
  generalize (pool.selectKeys qs).2 = pool' at *
  have hk : pool'.keys = pool.keys := by
    refine List.ext_getElem? fun i => ?_
    have hi := congrArg (·[i]?) hs
    have hwi := congrFun hw i
    simp only [List.getElem?_map, weights] at hi hwi
    cases hx : pool'.keys[i]?
    case none => cases hy : pool.keys[i]? <;> simp_all
    case some e =>
      cases hy : pool.keys[i]?
      case none => simp_all
      case some d =>
        cases e
        cases d
        simp_all
  cases pool
  cases pool'
  simp_all

-- Whether the current weights of the keys that may be selected are all zero.
def Level (pool : ProviderKeyPool) (may : ProviderKey → Bool) : Prop :=
  ∀ e ∈ pool.keys, may e.key → e.currentWeight = 0

def balance (pool : ProviderKeyPool) (may : ProviderKey → Bool) : Int :=
  ((pool.keys.filter (may ·.key)).map (·.currentWeight)).sum

def totalWeight (pool : ProviderKeyPool) (may : ProviderKey → Bool) : Int :=
  ((pool.keys.filter (may ·.key)).map (·.weight)).sum

theorem sum_candidates {f : KeyEntry → Int} {g : Nat → Int}
    (h : ∀ i e, pool.keys[i]? = some e → g i = f e) :
    ∑ i ∈ (candidates may pool.allKeys).toFinset, g i =
      ((pool.keys.filter (may ·.key)).map f).sum := by
  have hf : pool.keys.filter (may ·.key) = (pool.keys.zipIdx.filter (may ·.1.key)).map (·.1) := by
    conv_lhs => rw [←List.zipIdx_map_fst 0 pool.keys, List.filter_map]
    rfl
  have hc : candidates may pool.allKeys = (pool.keys.zipIdx.filter (may ·.1.key)).map (·.2) := by
    rw [candidates, allKeys, List.zipIdx_map, List.filter_map, List.map_map]
    rfl
  rw [List.sum_toFinset _ nodup_candidates, hc, hf, List.map_map, List.map_map]
  refine congrArg List.sum (List.map_congr_left fun p hp => ?_)
  exact h p.2 p.1 (List.mem_zipIdx_iff_getElem?.mp (List.mem_filter.mp hp).left)

theorem shareAt_eq {e : KeyEntry} {i : Nat} (h : pool.keys[i]? = some e) :
    shareAt pool.allKeys i = e.weight := by
  rw [shareAt, allKeys, List.getElem?_map, h]
  rfl

theorem total_candidates (pool : ProviderKeyPool) (may : ProviderKey → Bool) :
    total (candidates may pool.allKeys).toFinset (shareAt pool.allKeys) = pool.totalWeight may :=
  sum_candidates fun _ _ => shareAt_eq

theorem sum_weights (pool : ProviderKeyPool) (may : ProviderKey → Bool) :
    ∑ i ∈ (candidates may pool.allKeys).toFinset, pool.weights i = pool.balance may :=
  sum_candidates fun i e h => by rw [weights, h]; rfl

-- What keys that are the same have of the total weight.
theorem sum_shares {key : ProviderKey} (hm : may key) :
    ∑ i ∈ (candidates may pool.allKeys).toFinset.filter (pool.allKeys[·]? = some key),
      shareAt pool.allKeys i = pool.allKeys.count key * key.share := by
  have hs : ∑ i ∈ (candidates may pool.allKeys).toFinset,
      (if pool.allKeys[i]? = some key then shareAt pool.allKeys i else 0) =
        ((pool.keys.filter (may ·.key)).map fun e => if e.key = key then e.weight else 0).sum :=
    sum_candidates fun i e h => by
      rw [shareAt_eq h, allKeys, List.getElem?_map, h]
      simp
  rw [Finset.sum_filter, hs, allKeys]
  induction pool.keys
  case nil => simp
  case cons e es hi =>
    by_cases he : e.key = key
    case pos =>
      rw [List.filter_cons_of_pos (by simpa [he] using hm), List.map_cons, List.sum_cons, hi,
        List.map_cons, he, List.count_cons_self, if_pos rfl, KeyEntry.weight, he]
      rw [ProviderKey.share]
      push_cast
      ring
    case neg =>
      rw [List.map_cons, List.count_cons_of_ne he, ←hi]
      by_cases hme : may e.key
      case pos => simp [hme, he]
      case neg => simp [hme]

theorem count_range {keys : List ProviderKey} {f : Nat → Option ProviderKey} {n : Nat}
    {key : ProviderKey} (h : keys.map some = (List.range n).map f) :
    keys.count key = Nat.count (fun k => f k = some key) n := by
  rw [←List.count_map_of_injective keys some (Option.some_injective _), h]
  clear h
  induction n
  case zero => rfl
  case succ n hi =>
    rw [List.range_succ, List.map_append, List.count_append, hi, Nat.count_succ, List.map_singleton,
      List.count_singleton]
    simp

-- What runs of selections do, where the keys that may be selected stay the same and all start at
-- zero.
theorem selectKeys_exact {qs₁ qs₂ : List Selection} (ha : pool.provider.enabled)
    (hz : pool.Level may) (hs : ∀ q ∈ qs₁ ++ qs₂, pool.Serves may q) :
    (pool.selectKeys qs₁).2.balance may = 0 ∧
    (qs₂.length = pool.totalWeight may →
      (∀ key ∈ pool.allKeys, may key →
        (((pool.selectKeys qs₁).2.selectKeys qs₂).1.filterMap (·.toOption)).count key =
          pool.allKeys.count key * key.share) ∧
      ((pool.selectKeys qs₁).2.selectKeys qs₂).2 = (pool.selectKeys qs₁).2) := by
  obtain ⟨hs₁, hs₂⟩ := List.forall_mem_append.mp hs
  have hk : (pool.selectKeys qs₁).2.allKeys = pool.allKeys := selectKeys_still fun _ _ => rfl
  by_cases hn : candidates may pool.allKeys = []
  case pos =>
    have ht := total_candidates pool may
    have hb := sum_weights (pool.selectKeys qs₁).2 may
    rw [hn, List.toFinset_nil] at ht
    rw [hk, hn, List.toFinset_nil] at hb
    refine ⟨hb.symm, fun hl => ?_⟩
    have hq : qs₂ = [] := by
      rw [←ht] at hl
      simpa [total] using hl
    subst hq
    refine ⟨fun key hm hmay => ?_, rfl⟩
    obtain ⟨i, hi⟩ := List.mem_iff_getElem?.mp hm
    have := mem_candidates.mpr ⟨key, hi, hmay⟩
    rw [hn] at this
    cases this
  case neg =>
    have hg : Greatest (candidates may pool.allKeys).toFinset (pool.pickAt may) :=
      greatest_heaviestOf hn
    have hw : ∀ i ∈ (candidates may pool.allKeys).toFinset, 0 < shareAt pool.allKeys i := by
      intro i hi
      obtain ⟨k, hk, _⟩ := mem_candidates.mp (List.mem_toFinset.mp hi)
      rw [shareAt, hk, Option.map_some, Option.getD_some, ProviderKey.share]
      omega
    have hzero : ∀ i ∈ (candidates may pool.allKeys).toFinset, pool.weights i = 0 := by
      intro i hi
      obtain ⟨k, hk, hm⟩ := mem_candidates.mp (List.mem_toFinset.mp hi)
      rw [allKeys, List.getElem?_map, Option.map_eq_some_iff] at hk
      obtain ⟨e, he, hek⟩ := hk
      rw [weights, he]
      exact hz e (List.mem_of_getElem? he) (hek ▸ hm)
    obtain ⟨_, _, hp₁, hw₁⟩ := selectKeys_turns ha hs₁ hn
    have hserves (q : Selection) (h : q ∈ qs₂) : (pool.selectKeys qs₁).2.Serves may q :=
      (hs₂ q h).of_keys hk
    obtain ⟨⟨keys, hoks, hkeys⟩, _, hp₂, hw₂⟩ := selectKeys_turns (hp₁ ▸ ha) hserves (hk ▸ hn)
    have hpick : (pool.selectKeys qs₁).2.pickAt may = pool.pickAt may := by
      funext c
      rw [pickAt, pickAt, hk]
    rw [hk, hpick] at hw₂
    have hb := sum_weights (pool.selectKeys qs₁).2 may
    rw [hk, hw₁, sum_turns hg, Finset.sum_eq_zero hzero] at hb
    refine ⟨hb.symm, fun hl => ?_⟩
    have hlen : qs₂.length = (total (candidates may pool.allKeys).toFinset
        (shareAt pool.allKeys)).toNat := by
      rw [total_candidates, ←hl, Int.toNat_natCast]
    have hcircle := turns_circle hg hw hzero qs₁.length
    rw [←hlen, ←hw₁] at hcircle
    refine ⟨fun key hm hmay => ?_, selectKeys_eq hp₂ (hw₂.trans hcircle)⟩
    have hresults : (((pool.selectKeys qs₁).2.selectKeys qs₂).1.filterMap (·.toOption)) = keys := by
      rw [hoks, List.filterMap_map]
      exact List.filterMap_some
    have hat (n : Nat) : (pool.selectKeys qs₁).2.pickedAt may n =
        picked (candidates may pool.allKeys).toFinset (shareAt pool.allKeys) (pool.pickAt may)
          (pool.selectKeys qs₁).2.weights n := by
      rw [pickedAt, hk, hpick]
    simp only [hk, hat] at hkeys
    rw [hresults, count_range hkeys, count_property (P := (pool.allKeys[·]? = some key)) hg,
      ←sum_shares hmay]
    push_cast
    refine Finset.sum_congr rfl fun i hi => ?_
    rw [hlen]
    exact count_total hw (Finset.mem_filter.mp hi).left (by rw [←hlen, hcircle])

-- What a key must be to be selected.
structure Fit (key : ProviderKey) (now : Nat) (exclude : List String) (model : Option String) :
    Prop where
  included  : key.id ∉ exclude
  rested    : ∀ until_ ∈ key.cooldownUntil, until_ ≤ now
  healthy   : key.healthState ≠ .unhealthy
  enabled   : key.enabled
  supported : ∀ m ∈ model, key.supportsModel m

theorem selected_fit {key : ProviderKey} {now : Nat} {exclude : List String}
    {model : Option String} (h : (pool.selectKeyForModel now exclude model).1 = .ok key) :
    pool.provider.enabled ∧ (∃ e ∈ pool.keys, e.key = key ∧ e.eligible now exclude model) ∧
      Fit key now exclude model := by
  simp only [selectKeyForModel] at h
  split at h
  case isTrue => cases h
  case isFalse hd =>
    split at h
    case h_1 => cases h
    case h_2 first rest hp =>
      injection h with h
      obtain ⟨hz, he⟩ := List.mem_filter.mp (hp ▸ heaviest_mem first rest)
      obtain ⟨e, hm, her⟩ := List.mem_map.mp (List.fst_mem_of_mem_zipIdx hz)
      have hke : e.key = key := by
        rw [←h, ←her]
        split <;> rfl
      have hee : e.eligible now exclude model := by
        rw [KeyEntry.eligible, KeyEntry.usable, hke, ←h]
        exact he
      refine ⟨by simp_all, ⟨e, hm, hke, hee⟩, ?_⟩
      simp only [KeyEntry.eligible, KeyEntry.usable, hke, Bool.and_eq_true, Option.all_eq_true,
        Bool.not_eq_true', bne_iff_ne, decide_eq_true_eq, List.contains_eq_mem,
        decide_eq_false_iff_not] at hee
      obtain ⟨⟨⟨⟨hs, hi⟩, hen⟩, hh⟩, hr⟩ := hee
      exact ⟨hi, hr, hh, hen, hs⟩

variable (pool) in
-- A key is selected when one is eligible, and it's always a fit one. As long as the same keys are
-- eligible, they are selected in exact proportion to their weights.
theorem selection_exact :
    (∀ now exclude model,
      ((pool.selectKeyForModel now exclude model).1.isOk ↔
        pool.hasEligibleKey now exclude model) ∧
      ∀ key, (pool.selectKeyForModel now exclude model).1 = .ok key →
        key ∈ pool.allKeys ∧ Fit key now exclude model) ∧
    (∀ may, pool.provider.enabled → pool.Level may → ∀ qs₁ qs₂,
      (∀ q ∈ qs₁ ++ qs₂, pool.Serves may q) →
        (pool.selectKeys qs₁).2.balance may = 0 ∧
        (qs₂.length = pool.totalWeight may →
          (∀ key ∈ pool.allKeys, may key →
            (((pool.selectKeys qs₁).2.selectKeys qs₂).1.filterMap (·.toOption)).count key =
              pool.allKeys.count key * key.share) ∧
          ((pool.selectKeys qs₁).2.selectKeys qs₂).2 = (pool.selectKeys qs₁).2)) := by
  refine ⟨fun now exclude model => ⟨⟨fun h => ?_, fun h => ?_⟩, fun key h => ?_⟩,
    fun may ha hz qs₁ qs₂ hs => selectKeys_exact ha hz hs⟩
  · have ⟨key, h⟩ := Except.exists_of_isOk h
    have ⟨ha, ⟨e, he, _, hee⟩, _⟩ := selected_fit h
    rw [hasEligibleKey, ha, Bool.true_and, List.any_eq_true]
    exact ⟨e, he, hee⟩
  · cases hr : (pool.selectKeyForModel now exclude model).1
    case ok => rfl
    case error => rw [(not_eligible_of_unselected hr).right] at h; cases h
  · have ⟨_, ⟨e, he, hke, _⟩, hf⟩ := selected_fit h
    exact ⟨List.mem_map.mpr ⟨e, he, hke⟩, hf⟩

-- A pool of two keys, of which one is to be selected twice as often.
def pair : ProviderKeyPool where
  provider := ⟨"provider", true⟩
  keys     := [("key-1", 2), ("key-2", 1)].map fun (id, weight) => {
    key                 := ⟨none, id, true, weight, .healthy, none⟩
    currentWeight       := 0
    consecutiveFailures := 0
    lastError           := none
  }

theorem selection_exact_pair :
    ((pair.selectKeys (List.replicate 3 ⟨0, [], none⟩)).1.filterMap (·.toOption)).count
      ⟨none, "key-1", true, 2, .healthy, none⟩ = (2 : Int) :=
  (((selection_exact pair).right (fun _ => true) rfl (by simp [Level, pair]) []
    (List.replicate 3 ⟨0, [], none⟩) (by simp [Serves]; decide)).right (by decide)).left
      ⟨none, "key-1", true, 2, .healthy, none⟩ (by decide) rfl

end ProviderKeyPool
end Gateway
