import Superkiro.Billing.Requests

namespace Billing

variable {F : Type}

-- Error classes of requests refused for the card or the request itself.
def cardRefusals : List String :=
  ["insufficient_balance", "concurrency_limit", "usage_limit", "input_too_long",
    "unsupported_capability", "invalid_model", "model_not_listed", "model_retired"]

namespace RequestTrace

variable (tr later : RequestTrace F)

-- The requests a trace stands for: its own and the repeated refusals it counts.
def occurrences : Nat := satAddU64 tr.repeats 1

def lastSeen : Nat := max (tr.lastSeenSecs.getD tr.ts) tr.ts

-- A request that ended without completing and was charged.
def interruptedCharged : Bool :=
  0 < tr.creditsCharged &&
    match tr.status with
    | .clientAborted         => true
    | .error                 => tr.errorClass = some "stream_incomplete"
    | .success | .inProgress => false

def refusedForCard : Bool := tr.status = .error && tr.errorClass.any (cardRefusals.contains ·)

-- Refused before any upstream was called.
def isRefusal : Bool :=
  tr.status = .error && tr.errorClass.isSome && tr.attemptChain.isEmpty && tr.creditsCharged = 0

def isRepeatedBy : Bool :=
  tr.isRefusal && later.isRefusal && tr.cardId = later.cardId &&
    tr.errorClass = later.errorClass && tr.ts ≤ later.ts && later.ts < satAddU64 tr.ts 60

def repeated (tr later : RequestTrace F) : RequestTrace F :=
  { tr with
    repeats      := satAddU64 tr.repeats 1
    lastSeenSecs := some (max tr.lastSeen later.ts) }

-- As requests are traced, before any other is counted.
def Fresh : Prop := tr.repeats = 0 ∧ tr.lastSeenSecs = none

end RequestTrace

-- Counts a refusal with the latest trace of the last minute that it repeats. Traces are given from
-- the latest to the earliest.
def foldInto (trace : RequestTrace F) : List (RequestTrace F) → Option (List (RequestTrace F))
  | []           => none
  | kept :: rest =>
    if satAddU64 kept.ts 60 ≤ trace.ts then none
    else if kept.isRepeatedBy trace then some (kept.repeated trace :: rest)
    else (foldInto trace rest).map (kept :: ·)

def recordTrace (traces : List (RequestTrace F)) (trace : RequestTrace F) :
    List (RequestTrace F) :=
  match foldInto trace traces.reverse with
  | some folded => folded.reverse
  | none        => Tables.retainTraces (traces ++ [trace])

def recordTraces (calls : List (RequestTrace F)) : List (RequestTrace F) :=
  calls.foldl recordTrace []

-- The requests that traces stand for.
def occurrencesOf (traces : List (RequestTrace F)) : Nat := (traces.map (·.occurrences)).sum

variable {tr later trace kept : RequestTrace F} {rest traces folded : List (RequestTrace F)}

namespace RequestTrace

theorem isRepeatedBy_iff : tr.isRepeatedBy later ↔ tr.isRefusal ∧ later.isRefusal ∧
    tr.cardId = later.cardId ∧ tr.errorClass = later.errorClass ∧ tr.ts ≤ later.ts ∧
      later.ts < satAddU64 tr.ts 60 := by
  simp only [isRepeatedBy, Bool.and_eq_true, decide_eq_true_eq, and_assoc]

theorem not_isRepeatedBy_of_old (h : satAddU64 tr.ts 60 ≤ later.ts) : ¬tr.isRepeatedBy later :=
  fun hr => Nat.not_lt.mpr h (isRepeatedBy_iff.mp hr).right.right.right.right.right

-- A later trace is only repeated by an earlier one if they're of the same time.
theorem isRepeatedBy_symm (h : tr.isRepeatedBy later) (ht : later.ts ≤ tr.ts) :
    later.isRepeatedBy tr := by
  have ⟨hr, hl, hc, he, hn, hw⟩ := isRepeatedBy_iff.mp h
  have he' : tr.ts = later.ts := Nat.le_antisymm hn ht
  exact isRepeatedBy_iff.mpr ⟨hl, hr, hc.symm, he.symm, ht, he' ▸ he' ▸ hw⟩

theorem Fresh.occurrences (h : tr.Fresh) : tr.occurrences = 1 := by
  rw [RequestTrace.occurrences, h.left]
  rfl

theorem occurrences_repeated (h : tr.occurrences < u64Max) :
    (tr.repeated trace).occurrences = tr.occurrences + 1 := by
  simp only [RequestTrace.occurrences, repeated, satAddU64, u64Max] at *
  omega

end RequestTrace

open RequestTrace

-- Which trace a refusal is counted with.
theorem foldInto_eq_some (h : foldInto trace traces = some folded) :
    ∃ newer kept older, traces = newer ++ kept :: older ∧ kept.isRepeatedBy trace ∧
      folded = newer ++ kept.repeated trace :: older := by
  induction traces generalizing folded
  case nil => cases h
  case cons kept rest hi =>
    rw [foldInto] at h
    split_ifs at h with ho hr
    case pos => exact ⟨[], kept, rest, rfl, hr, (Option.some_inj.mp h).symm⟩
    case neg =>
      have ⟨l, hl, he⟩ := Option.map_eq_some_iff.mp h
      have ⟨newer, k, older, ht, hk, hf⟩ := hi hl
      exact ⟨kept :: newer, k, older, ht ▸ rfl, hk, he ▸ hf ▸ rfl⟩

-- A refusal that is counted with no trace repeats none.
theorem foldInto_eq_none (hs : traces.Pairwise fun a b => b.ts ≤ a.ts)
    (h : foldInto trace traces = none) : ∀ kept ∈ traces, ¬kept.isRepeatedBy trace := by
  induction traces
  case nil => exact fun _ hm => nomatch hm
  case cons k rest hi =>
    have ⟨hb, hs⟩ := List.pairwise_cons.mp hs
    rw [foldInto] at h
    split_ifs at h with ho hr
    case pos =>
      refine fun kept hm => not_isRepeatedBy_of_old (Nat.le_trans ?_ ho)
      rcases List.mem_cons.mp hm with rfl | hm
      · exact Nat.le_refl _
      · have := hb kept hm
        simp only [satAddU64]
        omega
    case neg =>
      have hn := hi hs (Option.map_eq_none_iff.mp h)
      exact fun kept hm => (List.mem_cons.mp hm).elim (fun he => he ▸ hr) (hn kept)

-- Traces that have lost nothing of the calls that recorded them.
structure Folded (calls traces : List (RequestTrace F)) : Prop where
  sorted : traces.Pairwise fun a b => a.ts ≤ b.ts
  apart  : traces.Pairwise fun a b => ¬a.isRepeatedBy b ∧ ¬b.isRepeatedBy a
  timed  : ∀ kept ∈ traces, ∃ call ∈ calls, kept.ts = call.ts
  counts : occurrencesOf traces = calls.length

-- One trace in another's place.
theorem pairwise_replace {α : Type} {R : α → α → Prop} {a a' : α} {l l' : List α}
    (h : (l ++ a :: l').Pairwise R) (hl : ∀ x, R x a → R x a') (hr : ∀ x, R a x → R a' x) :
    (l ++ a' :: l').Pairwise R := by
  have ⟨h₁, h₂, h₃⟩ := List.pairwise_append.mp h
  have ⟨h₄, h₅⟩ := List.pairwise_cons.mp h₂
  refine List.pairwise_append.mpr ⟨h₁, List.pairwise_cons.mpr ⟨fun x hm => hr x (h₄ x hm), h₅⟩, ?_⟩
  intro x hx y hy
  rcases List.mem_cons.mp hy with rfl | hy
  · exact hl x (h₃ x hx a List.mem_cons_self)
  · exact h₃ x hx y (List.mem_cons_of_mem _ hy)

theorem counted_append (traces rest : List (RequestTrace F)) :
    occurrencesOf (traces ++ rest) = occurrencesOf traces + occurrencesOf rest := by
  rw [occurrencesOf, List.map_append, List.sum_append, ←occurrencesOf, ←occurrencesOf]

theorem counted_cons (tr : RequestTrace F) (rest : List (RequestTrace F)) :
    occurrencesOf (tr :: rest) = tr.occurrences + occurrencesOf rest := by
  rw [occurrencesOf, List.map_cons, List.sum_cons, ←occurrencesOf]

theorem retainTraces_eq (h : (Tables.retainTraces traces).length < maxRetainedTraces) :
    Tables.retainTraces traces = traces := by
  rw [Tables.retainTraces, List.length_drop] at h
  rw [Tables.retainTraces, Nat.sub_eq_zero_of_le (by omega), List.drop_zero]

-- A refusal is either counted with a trace that it repeats or it's a trace of its own.
theorem recordTrace_cases (hs : traces.Pairwise fun a b => a.ts ≤ b.ts)
    (hl : (recordTrace traces trace).length < maxRetainedTraces) :
    (∃ older kept newer, traces = older ++ kept :: newer ∧ kept.isRepeatedBy trace ∧
      recordTrace traces trace = older ++ kept.repeated trace :: newer) ∨
    (recordTrace traces trace = traces ++ [trace] ∧ ∀ kept ∈ traces, ¬kept.isRepeatedBy trace) := by
  rw [recordTrace] at hl ⊢
  cases hf : foldInto trace traces.reverse
  case none =>
    rw [hf] at hl
    have hn := foldInto_eq_none (List.pairwise_reverse.mpr hs) hf
    exact .inr ⟨retainTraces_eq hl, fun kept hm => hn kept (List.mem_reverse.mpr hm)⟩
  case some folded =>
    have ⟨newer, kept, older, ht, hk, hd⟩ := foldInto_eq_some hf
    refine .inl ⟨older.reverse, kept, newer.reverse, ?_, hk, ?_⟩
    · rw [←traces.reverse_reverse, ht]
      simp
    · simp [hd]

theorem Folded.record {calls : List (RequestTrace F)} (h : Folded calls traces)
    (ht : ∀ call ∈ calls, call.ts ≤ trace.ts) (hf : trace.Fresh) (hb : calls.length < u64Max)
    (hl : (recordTrace traces trace).length < maxRetainedTraces) :
    Folded (calls ++ [trace]) (recordTrace traces trace) := by
  have htimed : ∀ kept ∈ traces, kept.ts ≤ trace.ts := fun kept hm =>
    have ⟨call, hc, he⟩ := h.timed kept hm
    he ▸ ht call hc
  have hlast (kept : RequestTrace F) (hm : kept ∈ traces) :
      ∃ call ∈ calls ++ [trace], kept.ts = call.ts :=
    have ⟨call, hc, he⟩ := h.timed kept hm
    ⟨call, List.mem_append_left _ hc, he⟩
  obtain ⟨older, kept, newer, he, hk, hr⟩ | ⟨hr, hn⟩ := recordTrace_cases h.sorted hl
  case inl =>
    rw [hr]
    subst he
    have hc := h.counts
    simp only [counted_append, counted_cons] at hc
    -- What a trace counts changes nothing about which refusals repeat it.
    refine ⟨pairwise_replace h.sorted (fun _ => id) fun _ => id,
      pairwise_replace h.apart (fun _ => id) fun _ => id, fun k hm => ?_, ?_⟩
    · simp only [List.mem_append, List.mem_cons] at hm
      rcases hm with hm | rfl | hm
      · exact hlast _ (List.mem_append_left _ hm)
      · exact hlast kept (List.mem_append_right _ List.mem_cons_self)
      · exact hlast _ (List.mem_append_right _ (List.mem_cons_of_mem _ hm))
    · rw [counted_append, counted_cons, occurrences_repeated (by omega), List.length_append,
        List.length_singleton]
      omega
  case inr =>
    rw [hr]
    refine ⟨?_, ?_, fun k hm => ?_, ?_⟩
    · exact List.pairwise_append.mpr ⟨h.sorted, List.pairwise_singleton _ _,
        fun k hm t ht => List.mem_singleton.mp ht ▸ htimed k hm⟩
    · refine List.pairwise_append.mpr ⟨h.apart, List.pairwise_singleton _ _, fun k hm t ht => ?_⟩
      rw [List.mem_singleton.mp ht]
      exact ⟨hn k hm, fun hr => hn k hm (isRepeatedBy_symm hr (htimed k hm))⟩
    · rcases List.mem_append.mp hm with hm | hm
      · exact hlast _ hm
      · exact ⟨trace, List.mem_append_right _ List.mem_cons_self, List.mem_singleton.mp hm ▸ rfl⟩
    · rw [counted_append, counted_cons, hf.occurrences, h.counts, List.length_append]
      rfl

variable (trace) in
-- No trace goes while there are fewer than are retained.
theorem length_le_recordTrace (h : traces.length ≤ maxRetainedTraces) :
    traces.length ≤ (recordTrace traces trace).length ∧
      (recordTrace traces trace).length ≤ maxRetainedTraces := by
  rw [recordTrace]
  cases hf : foldInto trace traces.reverse
  case none =>
    simp only [Tables.retainTraces, List.length_drop, List.length_append, List.length_singleton]
    omega
  case some folded =>
    have ⟨newer, kept, older, ht, _, hd⟩ := foldInto_eq_some hf
    have hl : folded.length = traces.length := by
      rw [←traces.length_reverse, ht, hd]
      simp
    simp only [List.length_reverse, hl]
    exact ⟨Nat.le_refl _, h⟩

theorem length_recordTraces_le (calls : List (RequestTrace F)) :
    (recordTraces calls).length ≤ maxRetainedTraces := by
  induction calls using List.reverseRecOn
  case nil => exact Nat.zero_le _
  case append_singleton calls trace hi =>
    rw [recordTraces, List.foldl_concat, ←recordTraces]
    exact (length_le_recordTrace trace hi).right

theorem recordTraces_folded {calls : List (RequestTrace F)} (hf : ∀ call ∈ calls, call.Fresh)
    (hs : calls.Pairwise fun a b => a.ts ≤ b.ts) (hb : calls.length ≤ u64Max)
    (hl : (recordTraces calls).length < maxRetainedTraces) : Folded calls (recordTraces calls) := by
  induction calls using List.reverseRecOn
  case nil =>
    rw [recordTraces, List.foldl_nil]
    exact ⟨.nil, .nil, fun _ hm => (List.not_mem_nil hm).elim, List.sum_nil⟩
  case append_singleton calls trace hi =>
    have ⟨hs, _, ht⟩ := List.pairwise_append.mp hs
    rw [recordTraces, List.foldl_concat, ←recordTraces] at hl ⊢
    rw [List.length_append, List.length_singleton] at hb
    have hk := (length_le_recordTrace trace (length_recordTraces_le calls)).left
    have hi := hi (fun call hm => hf call (List.mem_append_left _ hm)) hs (by omega)
      (Nat.lt_of_le_of_lt hk hl)
    exact hi.record (fun call hm => ht call hm trace List.mem_cons_self)
      (hf trace (List.mem_append_right _ List.mem_cons_self)) (by omega) hl

end Billing
