import Superkiro.Lib.Apportion
import Superkiro.Billing.Adjustments

namespace Billing

open F64 Except Host AList

-- What the shares of an amount are in proportion to.
def proportions (weights : List I64) : List Int :=
  let ws := weights.map fun w => max w.val 0
  if ws.sum ≤ 0 then ws.map fun _ => 1 else ws

-- What some shares come to, if there are any.
def comesTo (xs : List I64) : Option I64 := if xs.isEmpty then none else some (.satSum 0 xs)

-- What an entry gives a request of a card.
def sharesFor (parse : String → Option Json) (cardId id : String) (e : LedgerEntry F) : List I64 :=
  if isCompensation parse e && e.cardId = cardId then
    ((shares parse e).filter (·.1 = id)).map (·.2)
  else
    []

-- What a request of a card was given in all.
def CompensationIndex.total (i : CompensationIndex) (cardId id : String) : Option I64 :=
  (i.get cardId id).map (·.totalMicroCredits)

section

variable {amount : I64} {weights : List I64}

theorem splitFrom_eq {amount total running : Int} {ws : List Int} :
    splitFrom amount total running (Apportion.upTo amount total running) ws =
      (Apportion.shares amount total running ws).map I64.sat := by
  induction ws generalizing running
  case nil => rfl
  case cons w ws hi =>
    rw [splitFrom, Apportion.shares, List.map_cons, ← hi]
    rfl

theorem split_eq : split amount weights =
    (Apportion.shares amount.val (proportions weights).sum 0 (proportions weights)).map I64.sat := by
  rw [← splitFrom_eq, Apportion.upTo, Int.mul_zero, Int.zero_tdiv]
  rfl

theorem length_proportions : (proportions weights).length = weights.length := by
  simp only [proportions]
  split <;> simp

theorem length_split : (split amount weights).length = weights.length := by
  rw [split_eq, List.length_map, Apportion.length_shares, length_proportions]

theorem proportions_nonneg : ∀ w ∈ proportions weights, 0 ≤ w := by
  intro w hw
  simp only [proportions] at hw
  split at hw
  case isTrue =>
    obtain ⟨_, _, rfl⟩ := List.mem_map.mp hw
    exact Int.one_nonneg
  case isFalse =>
    obtain ⟨_, _, rfl⟩ := List.mem_map.mp hw
    exact Int.le_max_right ..

theorem proportions_pos (hn : weights ≠ []) : 0 < (proportions weights).sum := by
  have hl := List.length_pos_iff.mpr hn
  simp only [proportions]
  split
  case isTrue =>
    rw [List.map_map]
    change 0 < (weights.map fun _ => (1 : Int)).sum
    rw [List.map_const', List.sum_replicate]
    simpa using hl
  case isFalse h => exact Int.not_le.mp h

theorem map_val_sat {xs : List Int} (h : ∀ x ∈ xs, 0 ≤ x) (hu : ∀ x ∈ xs, x ≤ I64.maxValue.val) :
    (xs.map I64.sat).map (·.val) = xs := by
  induction xs
  case nil => rfl
  case cons x xs hi =>
    rw [List.forall_mem_cons] at h hu
    rw [List.map_cons, List.map_cons, hi h.right hu.right]
    have hu := hu.left
    simp only [I64.val_maxValue] at hu
    simp only [I64.val_sat, List.cons.injEq, and_true]
    omega

-- No share is cut off by the width of its integer.
theorem val_split (ha : 0 ≤ amount.val) (hn : weights ≠ []) : (split amount weights).map (·.val) =
    Apportion.shares amount.val (proportions weights).sum 0 (proportions weights) := by
  have ht := proportions_pos hn
  rw [split_eq]
  apply map_val_sat
  case h => exact Apportion.shares_nonneg ha ht (Int.le_refl 0) proportions_nonneg
  case hu =>
    intro s hs
    exact (Apportion.shares_le_amount ha ht proportions_nonneg s hs).trans amount.upper

theorem split_nonneg (ha : 0 ≤ amount.val) : ∀ s ∈ split amount weights, 0 ≤ s.val := by
  intro s hs
  by_cases hn : weights = []
  case pos =>
    subst hn
    cases hs
  case neg =>
    have hs := List.mem_map_of_mem (f := (·.val)) hs
    rw [val_split ha hn] at hs
    exact Apportion.shares_nonneg ha (proportions_pos hn) (Int.le_refl 0) proportions_nonneg _ hs

-- The shares come to what was shared.
theorem sum_split (ha : 0 ≤ amount.val) (hn : weights ≠ []) :
    ((split amount weights).map (·.val)).sum = amount.val := by
  rw [val_split ha hn]
  exact Apportion.sum_shares_all (proportions_pos hn).ne'

-- No share is more than its weight where what's shared isn't more than the weights come to.
theorem split_le (ha : 0 < amount.val) (hl : amount.val ≤ (weights.map fun w => max w.val 0).sum) :
    List.Forall₂ (fun s w => s.val ≤ max w.val 0) (split amount weights) weights := by
  have hp : proportions weights = weights.map fun w => max w.val 0 := by
    rw [proportions, if_neg (Int.not_le.mpr (ha.trans_le hl))]
  have hn : weights ≠ [] := by
    rintro rfl
    exact absurd (ha.trans_le hl) (Int.lt_irrefl 0)
  have h := Apportion.shares_le ha.le (proportions_pos hn) (hp.symm ▸ hl) (Int.le_refl 0)
    (@proportions_nonneg weights)
  rw [← val_split ha.le hn, List.forall₂_map_left_iff] at h
  rw [hp, List.forall₂_map_right_iff] at h
  exact h

end

section

variable {parse : String → Option Json} {i : CompensationIndex} {e : LedgerEntry F}
variable {es : List (LedgerEntry F)} {xs ys : List I64} {cardId id : String}
variable {card : Table String RequestCompensation}

theorem comesTo_concat (x : I64) :
    comesTo (xs ++ [x]) = some ((comesTo xs).elim x (·.satAdd x)) := by
  cases xs
  case nil => simp [comesTo, I64.satSum, I64.satAdd]
  case cons => simp [comesTo, I64.satSum_append]

theorem comesTo_perm (hx : ∀ x ∈ xs, 0 ≤ x.val) (hp : xs.Perm ys) : comesTo xs = comesTo ys := by
  have he : xs.isEmpty = ys.isEmpty := by
    rw [Bool.eq_iff_iff, List.isEmpty_iff_length_eq_zero, List.isEmpty_iff_length_eq_zero, hp.length_eq]
  rw [comesTo, comesTo, he, I64.satSum_perm (Int.le_refl 0) hx hp]

theorem comesTo_eq_none : comesTo xs = none ↔ xs = [] := by
  cases xs <;> simp [comesTo]

namespace CompensationIndex

theorem addShare_total {share : String × I64}
    (h : (card.lookup id).map (·.totalMicroCredits) = comesTo xs) :
    ((addShare e card share).lookup id).map (·.totalMicroCredits) =
      comesTo (xs ++ if share.1 = id then [share.2] else []) := by
  by_cases hid : share.1 = id
  case pos =>
    subst hid
    rw [if_pos rfl, comesTo_concat, ← h, addShare]
    cases card.lookup share.1 <;> simp
  case neg =>
    rw [if_neg hid, List.append_nil, ← h, addShare]
    split <;> rw [lookup_insert_ne (Ne.symm hid)]

theorem foldl_addShare_total {ss : List (String × I64)}
    (h : (card.lookup id).map (·.totalMicroCredits) = comesTo xs) :
    ((ss.foldl (addShare e) card).lookup id).map (·.totalMicroCredits) =
      comesTo (xs ++ (ss.filter (·.1 = id)).map (·.2)) := by
  induction ss generalizing card xs
  case nil => simpa using h
  case cons s ss hi =>
    rw [List.foldl_cons, hi (addShare_total h), List.append_assoc]
    by_cases hid : s.1 = id <;> simp [hid]

-- An entry adds what it gives each request to what that was given.
theorem add_total (h : i.total cardId id = comesTo xs) :
    (i.add parse e).total cardId id = comesTo (xs ++ sharesFor parse cardId id e) := by
  rw [add, sharesFor]
  cases hc : isCompensation parse e
  case false => simpa using h
  case true =>
    simp only [if_true, Bool.true_and, decide_eq_true_eq]
    by_cases hk : e.cardId = cardId
    case neg =>
      rw [if_neg hk, List.append_nil, ← h, total, get, lookup_insert_ne (Ne.symm hk)]
      rfl
    case pos =>
      subst hk
      rw [if_pos rfl, total, get, lookup_insert, Option.bind_some]
      apply foldl_addShare_total
      rw [← h, total, get]
      cases i.lookup e.cardId <;> simp

theorem foldl_add_total (h : i.total cardId id = comesTo xs) :
    (es.foldl (·.add parse) i).total cardId id =
      comesTo (xs ++ es.flatMap (sharesFor parse cardId id)) := by
  induction es generalizing i xs
  case nil => simpa using h
  case cons e es hi =>
    rw [List.foldl_cons, hi (add_total h), List.flatMap_cons, List.append_assoc]

theorem firstById_of_nodup (h : (es.map (·.id)).Nodup) : firstById es = es := by
  have hf (kept : List (LedgerEntry F)) (hn : ((kept ++ es).map (·.id)).Nodup) :
      es.foldl (fun kept e => if kept.any (·.id = e.id) then kept else kept ++ [e]) kept =
        kept ++ es := by
    clear h
    induction es generalizing kept
    case nil => simp
    case cons e es hi =>
      have hno : kept.any (·.id = e.id) = false := by
        rw [List.any_eq_false]
        intro k hk he
        rw [List.map_append, List.nodup_append] at hn
        exact hn.right.right k.id (List.mem_map_of_mem hk) e.id (by simp) (of_decide_eq_true he)
      rw [List.foldl_cons, hno, if_neg Bool.false_ne_true, hi (kept ++ [e]) (by simpa using hn)]
      simp
  exact hf [] h

theorem sharesFor_nonneg : ∀ s ∈ sharesFor parse cardId id e, 0 ≤ s.val := by
  intro s hs
  rw [sharesFor] at hs
  split at hs
  case isFalse => cases hs
  case isTrue hc =>
    simp only [Bool.and_eq_true, isCompensation] at hc
    obtain ⟨share, hshare, rfl⟩ := List.mem_map.mp hs
    have hm := List.of_mem_zip (List.mem_filter.mp hshare).left
    exact split_nonneg (le_of_lt (of_decide_eq_true hc.left.left.right)) _ hm.right

theorem flatMap_filter : (es.filter (isCompensation parse)).flatMap (sharesFor parse cardId id) =
    es.flatMap (sharesFor parse cardId id) := by
  induction es
  case nil => rfl
  case cons e es hi =>
    rw [List.filter_cons, List.flatMap_cons, ← hi]
    cases hc : isCompensation parse e
    case true => rfl
    case false => simp [sharesFor, hc]

-- The index that's built counts every entry once, in whatever order it takes them.
theorem build_total (h : ((es.filter (isCompensation parse)).map (·.id)).Nodup) :
    (build parse es).total cardId id = comesTo (es.flatMap (sharesFor parse cardId id)) := by
  have hn : total (∅ : CompensationIndex) cardId id = comesTo [] := rfl
  have hp := (List.perm_insertionSort (fun a b : LedgerEntry F => a.tsSecs ≤ b.tsSecs)
    (es.filter (isCompensation parse))).flatMap_right (sharesFor parse cardId id)
  rw [flatMap_filter] at hp
  rw [build, firstById_of_nodup h, foldl_add_total hn, List.nil_append]
  apply comesTo_perm
  case hp => exact hp
  case hx =>
    intro s hs
    obtain ⟨_, _, hs⟩ := List.mem_flatMap.mp hs
    exact sharesFor_nonneg s hs

end CompensationIndex

end

section

variable {parse : String → Option Json} {t : Tables F} {a : BalanceAdjustment}
variable {archives : List (List (LedgerEntry F))} {index : CompensationIndex} {cardId id : String}

theorem adjustmentDetail_charged {kind : AdjustmentKind} {cash : Option I64} {ids : List String}
    {charged : List I64} :
    (adjustmentDetail kind cash ids charged).get? "chargedMicroCredits" =
      if ids.isEmpty then none else some (.arr (charged.map fun c => .num c.val)) := by
  cases cash <;> rcases ids with _ | ⟨_, _ | _⟩ <;> rfl

-- What a request is taken to have been charged.
def chargeOf (t : Tables F) (archives : List (List (LedgerEntry F))) (id : String) : I64 :=
  ((t.chargedRequest archives id).map (·.credits)).getD 0

theorem shares_entry : shares parse (a.entry t archives) =
    a.distinct.zip (split a.deltaMicroCredits (a.distinct.map (chargeOf t archives))) := by
  have hl : linkedRequests ((a.entry t archives).eventDetail parse) = a.distinct :=
    linkedRequests_adjustmentDetail
  have hw : ((a.charged t archives).map fun f => (f.map (·.credits)).getD 0) =
      a.distinct.map (chargeOf t archives) := by
    rw [BalanceAdjustment.charged, List.map_map]
    rfl
  have hn (xs : List I64) : (xs.map fun c => Json.num c.val).filterMap Json.asI64? = xs := by
    rw [List.filterMap_map]
    exact (List.filterMap_congr fun x _ => asI64?_num x).trans List.filterMap_some
  by_cases he : a.distinct = []
  case pos => rw [shares, hl, he, List.zip_nil_left, List.zip_nil_left]
  case neg =>
    have hd : ((a.entry t archives).eventDetail parse).bind (·.get? "chargedMicroCredits") =
        some (.arr ((a.distinct.map (chargeOf t archives)).map fun c => .num c.val)) := by
      simp only [LedgerEntry.eventDetail, BalanceAdjustment.entry, adjustmentEntry,
        Option.bind_some, adjustmentDetail_charged, hw]
      rw [if_neg (by simpa using he)]
    rw [shares, hl, hd]
    simp only [Option.bind_some, Json.asArr?, Option.getD_some, hn, List.length_map, if_true]
    rfl

-- What's checked of the requests of a positive adjustment that may not repeat another.
structure Checked (t : Tables F) (archives : List (List (LedgerEntry F))) (index : CompensationIndex)
    (a : BalanceAdjustment) : Prop where
  found  : ∀ id ∈ a.distinct, ∃ found, t.chargedRequest archives id = some found ∧
    found.cardId = a.cardId
  fresh  : ∀ id ∈ a.distinct, index.get a.cardId id = none
  within : a.distinct ≠ [] →
    a.deltaMicroCredits ≤ I64.satSum 0 (a.distinct.map (chargeOf t archives))

theorem zip_map_self {α β : Type} {f : α → β} {xs : List α} :
    xs.zip (xs.map f) = xs.map fun x => (x, f x) := by
  induction xs
  case nil => rfl
  case cons hi => simp [hi]

theorem map_found {ids : List String} (hf : ∀ id ∈ ids, ∃ found, t.chargedRequest archives id = some found) :
    (((ids.map fun id => (id, t.chargedRequest archives id)).filterMap fun x => x.2.map (x.1, ·)).map
      (·.2.credits)) = ids.map (chargeOf t archives) := by
  induction ids
  case nil => rfl
  case cons id ids hi =>
    rw [List.forall_mem_cons] at hf
    obtain ⟨⟨found, hc⟩, hf⟩ := hf
    have hid : chargeOf t archives id = found.credits := by simp [chargeOf, hc]
    simp only [List.map_cons, hc, List.filterMap_cons, Option.map_some, hid, hi hf]

theorem checked_of_checkRequests (hd : 0 < a.deltaMicroCredits) (hr : a.allowRepeat = false)
    (h : checkRequests t index a a.distinct (a.charged t archives) = .ok ()) :
    Checked t archives index a := by
  by_cases he : a.distinct = []
  case pos => exact ⟨by simp [he], by simp [he], fun hn => absurd he hn⟩
  case neg =>
    have hd : ¬(a.deltaMicroCredits ≤ 0 ∨ a.allowRepeat = true) := by
      simp only [hr, Bool.false_eq_true, or_false]
      exact I64.not_le.mpr hd
    simp only [checkRequests, List.isEmpty_iff, he, if_false, checkCompensation, if_neg hd,
      BalanceAdjustment.charged, zip_map_self, bind_eq_ok', exists_unit, ensure_eq_ok,
      List.map_eq_nil_iff, List.filter_eq_nil_iff, List.forall_mem_map] at h
    obtain ⟨_, hfound, hother, hfresh, hwithin⟩ := h
    have hf (id) (hm : id ∈ a.distinct) : ∃ found, t.chargedRequest archives id = some found :=
      Option.ne_none_iff_exists'.mp (by simpa using hfound id hm)
    have hmem {id found} (hm : id ∈ a.distinct) (hc : t.chargedRequest archives id = some found) :
        (id, found) ∈ (a.distinct.map fun id => (id, t.chargedRequest archives id)).filterMap
          fun x => x.2.map (x.1, ·) :=
      List.mem_filterMap.mpr ⟨(id, some found), List.mem_map.mpr ⟨id, hm, by rw [hc]⟩, rfl⟩
    constructor
    case found =>
      intro id hm
      obtain ⟨found, hc⟩ := hf id hm
      exact ⟨found, hc, by simpa using hother _ (hmem hm hc)⟩
    case fresh =>
      intro id hm
      obtain ⟨found, hc⟩ := hf id hm
      exact Option.map_eq_none_iff.mp (List.filterMap_eq_nil_iff.mp hfresh _ (hmem hm hc))
    case within =>
      intro _
      rw [map_found hf] at hwithin
      exact of_decide_eq_true hwithin

-- Adding up may be cut off, but it never exceeds what's added.
theorem satSum_le {x : I64} {xs : List I64} (hx : 0 ≤ x.val) :
    (I64.satSum x xs).val ≤ x.val + (xs.map fun w => max w.val 0).sum := by
  have hle (x : I64) (n : Int) (hn : 0 ≤ n) (hx : x.val ≤ n) :
      (I64.satSum x xs).val ≤ n + (xs.map fun w => max w.val 0).sum := by
    induction xs generalizing x n
    case nil => simpa using hx
    case cons w ws hi =>
      rw [I64.satSum_cons, List.map_cons, List.sum_cons, ← Int.add_assoc]
      apply hi
      · omega
      · have := x.upper
        simp only [I64.val_satAdd]
        omega
  exact hle x x.val hx (Int.le_refl _)

theorem filter_zip {ss : List I64} {ids : List String} (hn : ids.Nodup) (hl : ss.length = ids.length)
    (hm : id ∈ ids) : ∃ s, ((ids.zip ss).filter (·.1 = id)).map (·.2) = [s] ∧ (id, s) ∈ ids.zip ss := by
  induction ids generalizing ss
  case nil => cases hm
  case cons id' ids hi =>
    cases ss
    case nil => cases hl
    case cons s ss =>
      rw [List.nodup_cons] at hn
      rw [List.zip_cons_cons]
      by_cases hid : id' = id
      case pos =>
        subst hid
        refine ⟨s, ?_, .head _⟩
        have hnone : (ids.zip ss).filter (·.1 = id') = [] := by
          rw [List.filter_eq_nil_iff]
          rintro ⟨id, s⟩ hz he
          exact hn.left (of_decide_eq_true he ▸ (List.of_mem_zip hz).left)
        simp [hnone]
      case neg =>
        have hm := List.mem_of_ne_of_mem (Ne.symm hid) hm
        obtain ⟨s, hs, hz⟩ := hi hn.right (by simpa using hl) hm
        exact ⟨s, by simpa [hid] using hs, .tail _ hz⟩

theorem of_mem_zip {ss : List I64} {ids : List String} {f : String → I64} {R : I64 → I64 → Prop}
    (h : List.Forall₂ R ss (ids.map f)) {s : I64} (hz : (id, s) ∈ ids.zip ss) : R s (f id) := by
  induction ids generalizing ss
  case nil => cases hz
  case cons id' ids hi =>
    cases h
    case cons hs h =>
      rcases List.mem_cons.mp hz with hz | hz
      · cases hz
        exact hs
      · exact hi h hz

theorem isCompensation_entry (hd : 0 < a.deltaMicroCredits) (hn : a.distinct ≠ []) :
    isCompensation parse (a.entry t archives) := by
  have hids : (adjustmentDetail a.resolvedKind a.cashMicroCny a.distinct
      ((a.charged t archives).map fun f => (f.map (·.credits)).getD 0)).get? "invocationIds" =
        some (.arr (a.distinct.map .str)) := by
    rw [adjustmentDetail_invocationIds, if_neg (by simpa using hn)]
  simp [isCompensation, LedgerEntry.eventDetail, BalanceAdjustment.entry, adjustmentEntry, hids, hd]

-- Each request of an adjustment that's checked is given one share of it, within its charge.
theorem Checked.share (h : Checked t archives index a) (hd : 0 < a.deltaMicroCredits)
    (hm : id ∈ a.distinct) : ∃ s, sharesFor parse a.cardId id (a.entry t archives) = [s] ∧
      s.val ≤ max (chargeOf t archives id).val 0 := by
  have hne := List.ne_nil_of_mem hm
  have hle : a.deltaMicroCredits.val ≤
      ((a.distinct.map (chargeOf t archives)).map fun w => max w.val 0).sum := by
    have hs := @satSum_le 0 (a.distinct.map (chargeOf t archives)) (Int.le_refl 0)
    rw [I64.val_zero, Int.zero_add] at hs
    exact Int.le_trans (h.within hne) hs
  have hsplit := split_le hd hle
  have hl : (split a.deltaMicroCredits (a.distinct.map (chargeOf t archives))).length =
      a.distinct.length := by
    rw [length_split, List.length_map]
  obtain ⟨s, hs, hz⟩ := filter_zip a.nodup_distinct hl hm
  refine ⟨s, ?_, of_mem_zip hsplit hz⟩
  rw [sharesFor, isCompensation_entry hd hne, shares_entry, ← hs]
  exact if_pos (by simp [BalanceAdjustment.entry, adjustmentEntry])

theorem filter_shares_ne_nil {e : LedgerEntry F} (hm : id ∈ linkedRequests (e.eventDetail parse)) :
    (shares parse e).filter (·.1 = id) ≠ [] := by
  have hf : (shares parse e).map (·.1) = linkedRequests (e.eventDetail parse) := by
    simp only [shares]
    rw [List.map_fst_zip]
    rw [length_split]
    split
    case isTrue h => exact h.ge
    case isFalse => exact (List.length_map _).ge
  rw [← hf] at hm
  obtain ⟨share, hs, rfl⟩ := List.mem_map.mp hm
  exact List.ne_nil_of_mem (List.mem_filter.mpr ⟨hs, decide_eq_true rfl⟩)

-- The shares of an adjustment come to its amount.
theorem sum_shares_entry (hd : 0 < a.deltaMicroCredits) (hn : a.distinct ≠ []) :
    ((shares parse (a.entry t archives)).map (·.2.val)).sum = a.deltaMicroCredits.val := by
  have hw : a.distinct.map (chargeOf t archives) ≠ [] := by simpa using hn
  have hsnd : (a.distinct.zip (split a.deltaMicroCredits (a.distinct.map (chargeOf t archives)))).map
      (·.2) = split a.deltaMicroCredits (a.distinct.map (chargeOf t archives)) :=
    List.map_snd_zip (by rw [length_split, List.length_map])
  rw [shares_entry, ← sum_split (le_of_lt hd) hw]
  conv_rhs => rw [← hsnd]
  rw [List.map_map]
  rfl

theorem sharesFor_entry_of_not_mem (h : ¬(cardId = a.cardId ∧ id ∈ a.distinct)) :
    sharesFor parse cardId id (a.entry t archives) = [] := by
  rw [sharesFor]
  split
  case isFalse => rfl
  case isTrue hc =>
    simp only [Bool.and_eq_true, decide_eq_true_eq] at hc
    rw [shares_entry, List.map_eq_nil_iff, List.filter_eq_nil_iff]
    rintro ⟨id', s⟩ hz he
    exact h ⟨hc.right.symm, of_decide_eq_true he ▸ (List.of_mem_zip hz).left⟩

end

end Billing
