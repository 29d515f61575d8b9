import Superkiro.Gateway.Usage

namespace Gateway

open Billing

-- Each component's maximum adds up to the larger of the two sums only if one side has every
-- component.
theorem max_add_iff {a b c a' b' c' : Nat} :
    max (a + b + c) (a' + b' + c') = max a a' + max b b' + max c c' ↔
      (a' ≤ a ∧ b' ≤ b ∧ c' ≤ c) ∨ (a ≤ a' ∧ b ≤ b' ∧ c ≤ c') := by
  omega

namespace TokenUsage

variable {s o : TokenUsage} {reports : List TokenUsage}

-- The input a report counts, each kind of token once.
def input (u : TokenUsage) : Nat := u.uncachedPromptTokens + u.cacheRead + u.cacheCreation

@[mk_iff]
structure Consistent (u : TokenUsage) : Prop where
  sum   : u.promptTokens = u.input
  bound : u.promptTokens ≤ u64Max

instance : DecidablePred Consistent := fun u => decidable_of_iff _ (consistent_iff u).symm

-- Every kind of input is counted at most as high as by the other report.
@[mk_iff]
structure Within (u v : TokenUsage) : Prop where
  uncached : u.uncachedPromptTokens ≤ v.uncachedPromptTokens
  read     : u.cacheRead ≤ v.cacheRead
  creation : u.cacheCreation ≤ v.cacheCreation

-- What stays of the cache counts before a restatement that leaves them out.
def leftOut (s o : TokenUsage) : Nat :=
  if o.promptFinal then
    (if o.cacheReadInputTokens = none then s.cacheRead else 0) +
      (if o.cacheCreationInputTokens = none then s.cacheCreation else 0)
  else 0

-- A report is in step with the usage merged before it if it's a restatement that doesn't
-- overflow with what it leaves out, or comes after one, or counts no kind of input higher
-- than before while it counts another one lower.
def InStep (s o : TokenUsage) : Prop :=
  if o.promptFinal then o.promptTokens + leftOut s o ≤ u64Max
  else s.promptFinal ∨ o.Within s ∨ s.Within o

theorem consistent_default : Consistent {} := ⟨rfl, by decide⟩

theorem getD_max (a b : Option Nat) : (max a b).getD 0 = max (a.getD 0) (b.getD 0) := by
  cases a <;> cases b <;> simp

theorem getD_or (a b : Option Nat) :
    (a.or b).getD 0 = a.getD 0 + (if a = none then b.getD 0 else 0) := by
  cases a <;> simp

theorem max_again (a b : Option Nat) : max (max a b) b = max a b := by
  cases a <;> cases b <;> simp

theorem or_again (a b : Option Nat) : a.or (a.or b) = a.or b := by
  cases a <;> rfl

theorem satAddU64_eq {a b : Nat} (h : a + b ≤ u64Max) : satAddU64 a b = a + b := Nat.min_eq_left h

theorem satAddU64_le {a b : Nat} : satAddU64 a b ≤ u64Max := Nat.min_le_right ..

section Merge

theorem mergePrompt_restated (h : o.promptFinal) :
    (s.mergePrompt o).input = o.input + leftOut s o := by
  simp only [mergePrompt, input, cacheRead, cacheCreation, leftOut, h, if_true, getD_or]
  omega

theorem mergePrompt_stands (h : o.promptFinal = false) (hs : s.promptFinal) :
    s.mergePrompt o = s := by
  simp [mergePrompt, h, hs]

theorem mergePrompt_largest (h : o.promptFinal = false) (hs : s.promptFinal = false) :
    (s.mergePrompt o).input =
      max s.uncachedPromptTokens o.uncachedPromptTokens + max s.cacheRead o.cacheRead +
        max s.cacheCreation o.cacheCreation := by
  simp [mergePrompt, input, cacheRead, cacheCreation, h, hs, getD_max]

@[simp]
theorem merge_input : (s.merge o).input = (s.mergePrompt o).input := rfl

@[simp]
theorem merge_promptTokens : (s.merge o).promptTokens = (s.mergePrompt o).promptTokens := rfl

@[simp]
theorem merge_promptFinal : (s.merge o).promptFinal = (s.promptFinal || o.promptFinal) := by
  cases hs : s.promptFinal <;> cases ho : o.promptFinal <;> simp [merge, mergePrompt, hs, ho]

theorem merge_totalTokens :
    (s.merge o).totalTokens = satAddU64 (s.merge o).promptTokens (s.merge o).completionTokens := rfl

-- A report merged again changes nothing.
theorem merge_again (s o : TokenUsage) : (s.merge o).merge o = s.merge o := by
  cases hs : s.promptFinal <;> cases ho : o.promptFinal <;>
    simp [merge, mergePrompt, hs, ho, max_again, or_again, -Option.getD_or]

theorem consistent_restated (h : o.promptFinal) (ho : o.Consistent) :
    (s.merge o).Consistent ↔ o.promptTokens + leftOut s o ≤ u64Max := by
  have hi := mergePrompt_restated (s := s) h
  have hp : (s.mergePrompt o).promptTokens = min (s.mergePrompt o).input u64Max := by
    simp only [mergePrompt, h, if_true, input, cacheRead, cacheCreation, satAddU64]
    omega
  constructor
  case mp =>
    intro hc
    have hm := hc.sum
    have hr := ho.sum
    have hb := hc.bound
    rw [merge_promptTokens] at hm hb
    rw [merge_input] at hm
    omega
  case mpr =>
    intro hb
    have := ho.sum
    constructor <;> simp only [merge_promptTokens, merge_input] <;> omega

theorem consistent_stands (h : o.promptFinal = false) (hs : s.promptFinal) (hc : s.Consistent) :
    (s.merge o).Consistent := by
  have hm := mergePrompt_stands h hs
  constructor <;> simp only [merge_promptTokens, merge_input, hm]
  case sum => exact hc.sum
  case bound => exact hc.bound

theorem consistent_largest (h : o.promptFinal = false) (hs : s.promptFinal = false)
    (hc : s.Consistent) (ho : o.Consistent) :
    (s.merge o).Consistent ↔ o.Within s ∨ s.Within o := by
  have hp : (s.mergePrompt o).promptTokens = max s.input o.input := by
    simp [mergePrompt, h, hs, hc.sum, ho.sum]
  have hb : max s.input o.input ≤ u64Max := by
    have := hc.bound; have := ho.bound; have := hc.sum; have := ho.sum
    omega
  have hi := mergePrompt_largest h hs
  have hm : (s.merge o).Consistent ↔ max s.input o.input = (s.mergePrompt o).input := by
    constructor
    case mp => exact fun hm => hp.symm.trans hm.sum
    case mpr => exact fun hm => ⟨hp.trans hm, hp.trans_le hb⟩
  rw [hm, hi, input, input, max_add_iff, within_iff, within_iff]

-- Merging two consistent reports is consistent exactly if they are in step.
theorem consistent_merge (hc : s.Consistent) (ho : o.Consistent) :
    (s.merge o).Consistent ↔ InStep s o := by
  unfold InStep
  split
  case isTrue h => exact consistent_restated h ho
  case isFalse h =>
    have h := Bool.eq_false_iff.mpr h
    cases hs : s.promptFinal
    case true => simp [consistent_stands h hs hc]
    case false => simp [consistent_largest h hs hc ho]

-- What a merge adds to the input is counted by the report, or kept by its restatement.
theorem input_merge (hc : s.Consistent) (ho : o.Consistent) (h : InStep s o) :
    if o.promptFinal then (s.merge o).input = o.promptTokens + leftOut s o
    else (s.merge o).input ≤ max s.input o.promptTokens := by
  split
  case isTrue h => rw [merge_input, mergePrompt_restated h, ho.sum]
  case isFalse hf =>
    have hf := Bool.eq_false_iff.mpr hf
    have hm := ((consistent_merge hc ho).mpr h).sum
    rw [← hm, merge_promptTokens]
    cases hs : s.promptFinal
    case true => simp [mergePrompt_stands hf hs, hc.sum]
    case false => simp [mergePrompt, hf, hs, hc.sum]

end Merge

-- Every report is in step with what the ones before it merged to.
def Steady (s : TokenUsage) : List TokenUsage → Prop
  | []      => True
  | o :: os => InStep s o ∧ Steady (s.merge o) os

-- The cache counts that the last restatement left out, as they stood before it.
def carried (s : TokenUsage) (kept : Nat) : List TokenUsage → Nat
  | []      => kept
  | o :: os => carried (s.merge o) (if o.promptFinal then leftOut s o else kept) os

def largestPrompt (reports : List TokenUsage) : Nat :=
  reports.foldr (fun o n => max o.promptTokens n) 0

-- The usage stays consistent exactly as long as the reports are in step.
theorem consistent_iff_steady (hs : s.Consistent) (hc : ∀ o ∈ reports, o.Consistent) :
    (∀ before, before <+: reports → (before.foldl merge s).Consistent) ↔ Steady s reports := by
  induction reports generalizing s
  case nil => simp [Steady, hs]
  case cons o os ih =>
    have ⟨ho, hos⟩ := List.forall_mem_cons.mp hc
    constructor
    case mp =>
      intro h
      have hm := h [o] ⟨os, rfl⟩
      have hi := (consistent_merge hs ho).mp hm
      refine ⟨hi, (ih hm hos).mp fun before hb => ?_⟩
      exact h (o :: before) (List.cons_prefix_cons.mpr ⟨rfl, hb⟩)
    case mpr =>
      intro ⟨hi, hr⟩ before hb
      have hm := (consistent_merge hs ho).mpr hi
      cases before
      case nil => exact hs
      case cons b before =>
        have ⟨he, hp⟩ := List.cons_prefix_cons.mp hb
        subst he
        exact (ih hm hos).mpr hr before hp

-- Reports that trade one kind of input for another merge to more than either of them counts.
example :
    let uncached : TokenUsage := { uncachedPromptTokens := 100, promptTokens := 100 }
    let cached : TokenUsage :=
      { uncachedPromptTokens := 20, promptTokens := 100, cacheReadInputTokens := some 80 }
    uncached.Consistent ∧ cached.Consistent ∧ ¬(uncached.merge cached).Consistent := by decide

-- What's merged counts no more input than the largest report, apart from what the last
-- restatement left out.
theorem input_steady {m k : Nat} (hs : s.Consistent) (hc : ∀ o ∈ reports, o.Consistent)
    (hr : Steady s reports) (hi : s.input ≤ m + k) :
    (reports.foldl merge s).input ≤ max m (largestPrompt reports) + carried s k reports := by
  induction reports generalizing s m k
  case nil => simpa [carried, largestPrompt] using hi
  case cons o os ih =>
    have ⟨ho, hos⟩ := List.forall_mem_cons.mp hc
    have ⟨hr, hrs⟩ := hr
    have hm := (consistent_merge hs ho).mpr hr
    have hi' : (s.merge o).input ≤
        max m o.promptTokens + (if o.promptFinal then leftOut s o else k) := by
      have := input_merge hs ho hr
      split at this
      case isTrue hf => rw [if_pos hf]; omega
      case isFalse hf => rw [if_neg hf]; omega
    have := ih hm hos hrs hi'
    rw [max_assoc] at this
    exact this

theorem carried_eq_zero (h : ∀ o ∈ reports, o.promptFinal →
    o.cacheReadInputTokens.isSome ∧ o.cacheCreationInputTokens.isSome) :
    carried s 0 reports = 0 := by
  induction reports generalizing s
  case nil => rfl
  case cons o os ih =>
    have ⟨ho, hos⟩ := List.forall_mem_cons.mp h
    have hk : (if o.promptFinal then leftOut s o else 0) = 0 := by
      split
      case isFalse => rfl
      case isTrue hf =>
        have ⟨hr, hc⟩ := ho hf
        simp [leftOut, Option.isSome_iff_ne_none.mp hr, Option.isSome_iff_ne_none.mp hc]
    rw [carried, hk]
    exact ih hos

end TokenUsage

open TokenUsage

variable {reports : List TokenUsage}

theorem metered_usage : (metered reports).usage = reports.foldl merge {} := by
  have (m : Metered) : (reports.foldl Metered.observe m).usage = reports.foldl merge m.usage := by
    induction reports generalizing m
    case nil => rfl
    case cons o os ih => exact ih (m.observe o)
  exact this {}

theorem metered_hasInputUsage : (metered reports).hasInputUsage = reports.any reportsInput := by
  have (m : Metered) : (reports.foldl Metered.observe m).hasInputUsage =
      (m.hasInputUsage || reports.any reportsInput) := by
    induction reports generalizing m
    case nil => simp
    case cons o os ih => simp [ih, Metered.observe, Bool.or_assoc]
  exact this {}

theorem metered_concat (o : TokenUsage) :
    (metered (reports ++ [o])).usage = (metered reports).usage.merge o := by
  simp [metered_usage]

theorem asU64_le {j : Json} {n : Nat} (h : j.asU64? = some n) : n ≤ u64Max := by
  cases j <;> simp only [Json.asU64?, reduceCtorEq] at h
  case num k =>
    split at h
    case isTrue hk => injection h; unfold u64Max; omega
    case isFalse => cases h

-- A report is consistent if its upstream counts no more of the prompt as cached than all of it.
theorem OpenAiProvider.extractUsage_consistent {value : Json} {u : TokenUsage}
    (h : extractUsage value = some u) : u.Consistent ↔ u.cacheRead ≤ u.promptTokens := by
  simp only [extractUsage, Option.bind_eq_bind, Option.bind_eq_some_iff, Option.pure_def,
    Option.some.injEq] at h
  have ⟨_, _, _, _, prompt, hp, _, _, _, _, hu⟩ := h
  have := asU64_le hp
  subst hu
  simp only [consistent_iff, input, cacheRead, cacheCreation, Option.getD_none]
  omega

-- A report is consistent unless its counts add up to more than 64 bits hold.
theorem AnthropicProvider.extractUsage_consistent {value : Json} {u : TokenUsage}
    (h : extractUsage value = some u) : u.Consistent ↔ u.input ≤ u64Max := by
  simp only [extractUsage, Option.bind_eq_bind, Option.bind_eq_some_iff, Option.pure_def,
    Option.some.injEq] at h
  have ⟨_, _, hu⟩ := h
  subst hu
  simp only [consistent_iff, input, cacheRead, cacheCreation, satAddU64]
  omega

theorem AnthropicProvider.streamUsage_consistent {val : Json} {u : TokenUsage}
    (h : streamUsage val = some u) : u.Consistent ↔ u.input ≤ u64Max := by
  simp only [streamUsage] at h
  split at h
  case isTrue => cases h
  case isFalse =>
    split at h
    case isTrue =>
      simp only [Option.bind_eq_some_iff, Option.map_eq_some_iff] at h
      have ⟨_, _, extracted, he, hu⟩ := h
      subst hu
      have hx := extractUsage_consistent he
      rw [consistent_iff] at hx ⊢
      exact hx
    case isFalse =>
      split at h
      case isFalse => cases h
      case isTrue =>
        simp only [Option.map_eq_some_iff] at h
        have ⟨extracted, he, hu⟩ := h
        subst hu
        simp only [restated]
        split
        case isTrue =>
          have hx := extractUsage_consistent he
          rw [consistent_iff] at hx ⊢
          exact hx
        case isFalse => simp [consistent_iff, input, cacheRead, cacheCreation]

-- The input tokens of a settlement.
def inputTokens (t : UsageTokens) : Nat :=
  t.uncachedInputTokens + t.cacheReadTokens + t.cacheCreationTokens

section Settlement

variable {usage : TokenUsage} {units estimated : Nat} {saw counted : Bool} {tokens : UsageTokens}

theorem inputTokens_resolved
    (h : resolveSettlementTokens usage counted units saw estimated = some tokens) :
    inputTokens tokens =
      if counted then usage.input else max estimated 1 + usage.cacheRead + usage.cacheCreation := by
  simp only [resolveSettlementTokens] at h
  split at h
  case isTrue => cases h
  case isFalse =>
    injection h with h
    subst h
    cases counted <;> rfl

theorem input_zero (h : reportsInput usage = false) : usage.input = 0 := by
  simp only [reportsInput, Bool.or_eq_false_iff, decide_eq_false_iff_not, Nat.not_lt] at h
  have ⟨⟨⟨_, hu⟩, hr⟩, hc⟩ := h
  cases hr' : usage.cacheReadInputTokens <;> cases hc' : usage.cacheCreationInputTokens <;>
    simp_all [input, cacheRead, cacheCreation]

theorem input_uncounted (h : ∀ o ∈ reports, reportsInput o = false) (hu : usage.input = 0) :
    (reports.foldl merge usage).input = 0 := by
  induction reports generalizing usage
  case nil => exact hu
  case cons o os ih =>
    have ⟨ho, hos⟩ := List.forall_mem_cons.mp h
    apply ih hos
    have ho := input_zero ho
    rw [merge_input]
    cases hf : o.promptFinal <;> cases hs : usage.promptFinal
    case false.true => rw [mergePrompt_stands hf hs, hu]
    case false.false => rw [mergePrompt_largest hf hs]; simp only [input] at ho hu; omega
    all_goals
      rw [mergePrompt_restated hf, ho]
      simp only [leftOut, hf, if_true]
      simp only [input] at hu
      split <;> split <;> omega

end Settlement

-- What holds of the usage merged from `reports`, and of what is billed for it.
structure Metering (reports : List TokenUsage) : Prop where
  again      : ∀ o, reports.getLast? = some o →
    (metered (reports ++ [o])).usage = (metered reports).usage
  total      : (metered reports).usage.totalTokens =
    satAddU64 (metered reports).usage.promptTokens (metered reports).usage.completionTokens
  consistent : Steady {} reports → ∀ before, before <+: reports → (metered before).usage.Consistent
  billed     : ∀ {units saw estimated tokens}, Steady {} reports →
    (metered reports).hasInputUsage →
    resolveSettlementTokens (metered reports).usage (metered reports).hasInputUsage units saw
      estimated = some tokens →
    inputTokens tokens ≤ largestPrompt reports + carried {} 0 reports
  restated   : (∀ o ∈ reports, o.promptFinal →
    o.cacheReadInputTokens.isSome ∧ o.cacheCreationInputTokens.isSome) → carried {} 0 reports = 0
  estimated  : ∀ {units saw estimated tokens}, (metered reports).hasInputUsage = false →
    resolveSettlementTokens (metered reports).usage (metered reports).hasInputUsage units saw
      estimated = some tokens →
    inputTokens tokens = max estimated 1

theorem metered_again {o : TokenUsage} (h : reports.getLast? = some o) :
    (metered (reports ++ [o])).usage = (metered reports).usage := by
  have ⟨before, hb⟩ := List.getLast?_eq_some_iff.mp h
  rw [metered_concat, hb, metered_concat, merge_again]

theorem metered_total (reports : List TokenUsage) :
    (metered reports).usage.totalTokens =
      satAddU64 (metered reports).usage.promptTokens (metered reports).usage.completionTokens := by
  cases reports using List.reverseRecOn
  case nil => rfl
  case append_singleton before o => rw [metered_concat, merge_totalTokens]

theorem usage_reports (reports : List TokenUsage) (hc : ∀ o ∈ reports, o.Consistent) :
    Metering reports where
  again _ := metered_again
  total := metered_total reports
  consistent hs before hb := by
    rw [metered_usage]
    exact (consistent_iff_steady consistent_default hc).mpr hs before hb
  restated := carried_eq_zero
  billed hs hi ht := by
    have hb := input_steady (m := 0) (k := 0) consistent_default hc hs (Nat.le_refl 0)
    rw [inputTokens_resolved ht, hi, if_pos rfl, metered_usage]
    simpa using hb
  estimated hi ht := by
    have hr := metered_hasInputUsage.symm.trans hi
    have hz := input_uncounted (fun o ho => Bool.eq_false_iff.mpr (List.any_eq_false.mp hr o ho))
      (show input {} = 0 from rfl)
    rw [inputTokens_resolved ht, hi, metered_usage]
    rw [input] at hz
    simp only [Bool.false_eq_true, if_false]
    omega

theorem usage_reports_cached :
    Metering [{ uncachedPromptTokens := 5, promptTokens := 5 },
      { uncachedPromptTokens := 7, promptTokens := 9, cacheReadInputTokens := some 2 }] :=
  usage_reports _ (by decide)

-- A stream that opens with cache counts, and restates the prompt without them.
def openingEvent : Json := .obj [("type", .str "message_start"), ("message", .obj [("usage", .obj [
  ("input_tokens", .num 100), ("cache_read_input_tokens", .num 200),
  ("cache_creation_input_tokens", .num 50), ("output_tokens", .num 1)])])]

def restatement : Json := .obj [("type", .str "message_delta"), ("usage", .obj [
  ("input_tokens", .num 120), ("cache_read_input_tokens", .null), ("output_tokens", .num 25)])]

-- The restated prompt keeps the opening cache counts, and 370 input tokens are billed though
-- no report counted more than 350.
theorem usage_reports_restated :
    ∃ start restated tokens, AnthropicProvider.streamUsage openingEvent = some start ∧
      AnthropicProvider.streamUsage restatement = some restated ∧
      start.Consistent ∧ restated.Consistent ∧
      resolveSettlementTokens (metered [start, restated]).usage
        (metered [start, restated]).hasInputUsage 40 true 90 = some tokens ∧
      largestPrompt [start, restated] = 350 ∧ inputTokens tokens = 370 :=
  ⟨_, _, _, rfl, rfl, ⟨rfl, by decide⟩, ⟨rfl, by decide⟩, rfl, by decide, by decide⟩

end Gateway
