import Superkiro.Stream.Settlement

namespace Gateway

open Billing

-- How long the run of punctuation is that a text ends with, if it follows a run.
def runAfter (run : Nat) (cs : List Char) : Nat :=
  cs.foldl (fun run c => if isAsciiPunctuation c then run + 1 else 0) run

-- How long the run of punctuation is that a text starts with.
def leadingRun (cs : List Char) : Nat := (cs.takeWhile isAsciiPunctuation).length

-- Whether no delta after a run of punctuation starts a group of four that it wouldn't have started
-- as part of that run.
def Aligned (run : Nat) : List String → Prop
  | []      => True
  | d :: ds =>
    (run % 4 = 0 ∨ leadingRun d.toList % 4 = 0 ∨ 4 < run % 4 + leadingRun d.toList % 4) ∧
      Aligned (runAfter run d.toList) ds

-- The output that's billed for deltas where nothing else tells of it. An upstream may also have
-- sent identifiers of calls, which aren't counted.
def billedOutput (identified : Bool) (estimatedInput : Nat) (deltas : List String) : Option Nat :=
  (resolveSettlementTokens {} false (deltas.foldl (fun units d => satAddU64 units (tokenUnits d)) 0)
    (identified || deltas.any (· ≠ "")) estimatedInput).map (·.outputTokens)

section

variable {cs ds : List Char} {run : Nat} {d : String} {deltas : List String}

theorem charUnits_append :
    charUnits run (cs ++ ds) = charUnits run cs + charUnits (runAfter run cs) ds := by
  induction cs generalizing run
  case nil => simp [charUnits, runAfter]
  case cons c cs hi =>
    rw [List.cons_append, charUnits, charUnits, runAfter, List.foldl_cons]
    split <;> rw [hi, Nat.add_assoc, runAfter]

-- A run of punctuation counts by how many groups of four it starts. The rest counts the same
-- whatever it follows.
theorem charUnits_run (cs : List Char) (run : Nat) : charUnits run cs + 4 * ((run + 3) / 4) =
    4 * ((run + leadingRun cs + 3) / 4) + charUnits 0 (cs.dropWhile isAsciiPunctuation) := by
  induction cs generalizing run
  case nil => simp [charUnits, leadingRun]
  case cons c cs hi =>
    by_cases h : isAsciiPunctuation c
    case pos =>
      have hi := hi (run + 1)
      have hl : leadingRun (c :: cs) = leadingRun cs + 1 := by simp [leadingRun, h]
      rw [charUnits, if_pos h, hl, List.dropWhile_cons_of_pos h]
      split <;> omega
    case neg => simp [charUnits, leadingRun, h]; omega

-- What a text comes to on its own exceeds what it comes to after a run by whole tokens.
theorem charUnits_zero (cs : List Char) (run : Nat) : ∃ k, charUnits 0 cs = charUnits run cs + 4 * k ∧
    (k = 0 ↔ run % 4 = 0 ∨ leadingRun cs % 4 = 0 ∨ 4 < run % 4 + leadingRun cs % 4) := by
  have h₀ := charUnits_run cs 0
  have h := charUnits_run cs run
  generalize leadingRun cs = a at *
  refine ⟨(a + 3) / 4 + (run + 3) / 4 - (run + a + 3) / 4, ?_, ?_⟩
  · omega
  · omega

def joined (deltas : List String) : String := .ofList (deltas.flatMap String.toList)

theorem joined_cons : (joined (d :: deltas)).toList = d.toList ++ (joined deltas).toList := by
  simp [joined]

-- What deltas come to one by one exceeds what they come to as one by whole tokens.
theorem sum_units (deltas : List String) (run : Nat) : ∃ k,
    (deltas.map tokenUnits).sum = charUnits run (joined deltas).toList + 4 * k ∧
      (k = 0 ↔ Aligned run deltas) := by
  induction deltas generalizing run
  case nil => exact ⟨0, by simp [joined, charUnits], by simp [Aligned]⟩
  case cons d ds hi =>
    obtain ⟨k, hk, hz⟩ := hi (runAfter run d.toList)
    obtain ⟨l, hl, hy⟩ := charUnits_zero d.toList run
    refine ⟨k + l, ?_, ?_⟩
    · rw [List.map_cons, List.sum_cons, joined_cons, charUnits_append, tokenUnits, hl, hk]
      omega
    · rw [Aligned, ←hy, ←hz]
      omega

variable {parts : List (List String)}

theorem sum_parts (parts : List (List String)) : ∃ k, (parts.flatten.map tokenUnits).sum =
    ((parts.map joined).map tokenUnits).sum + 4 * k ∧
      (k = 0 ↔ ∀ deltas ∈ parts, Aligned 0 deltas) := by
  induction parts
  case nil => exact ⟨0, rfl, by simp⟩
  case cons ds parts hi =>
    have ⟨k, hk, hz⟩ := hi
    have ⟨l, hl, hy⟩ := sum_units ds 0
    refine ⟨k + l, ?_, ?_⟩
    · rw [List.flatten_cons, List.map_append, List.sum_append, hk, hl]
      simp only [List.map_cons, List.sum_cons, tokenUnits]
      omega
    · rw [List.forall_mem_cons, ←hy, ←hz]
      omega

theorem foldl_units {units : Nat} (h : units ≤ u64Max) :
    deltas.foldl (fun units d => satAddU64 units (tokenUnits d)) units =
      min (units + (deltas.map tokenUnits).sum) u64Max := by
  induction deltas generalizing units
  case nil => simpa using h
  case cons d ds hi =>
    rw [List.foldl_cons, satAddU64, hi (Nat.min_le_right _ _), List.map_cons, List.sum_cons]
    omega

theorem joined_eq_empty : joined deltas = "" ↔ ∀ d ∈ deltas, d = "" := by
  simp only [joined, String.ofList_eq_empty_iff, List.flatMap_eq_nil_iff, String.toList_eq_nil_iff]

theorem tokenUnits_eq_zero : tokenUnits d = 0 ↔ d = "" := by
  rw [←String.toList_eq_nil_iff, tokenUnits]
  cases d.toList
  case nil => simp [charUnits]
  case cons c cs =>
    simp only [charUnits, reduceCtorEq, iff_false]
    split
    case isTrue => simp
    case isFalse => split <;> [skip; split] <;> omega

-- Whether anything was written doesn't depend on the cut.
theorem any_written : parts.flatten.any (· ≠ "") = (parts.map joined).any (· ≠ "") := by
  have h (deltas : List String) : deltas.any (· ≠ "") = decide (joined deltas ≠ "") := by
    rw [Bool.eq_iff_iff]
    simp [joined_eq_empty]
  rw [List.any_flatten, List.any_map]
  exact congrArg₂ List.any rfl (funext h)

theorem billedOutput_eq {identified : Bool} {estimated : Nat} :
    billedOutput identified estimated deltas =
      if identified || deltas.any (· ≠ "") then
        some (max (tokensFromUnits (min (deltas.map tokenUnits).sum u64Max)) 1)
      else none := by
  rw [billedOutput, foldl_units (Nat.zero_le _), Nat.zero_add]
  cases identified || deltas.any (· ≠ "") <;> simp [resolveSettlementTokens]

theorem sum_eq_zero_of_silent (h : ∀ d ∈ deltas, d = "") : (deltas.map tokenUnits).sum = 0 := by
  refine List.sum_eq_zero fun n hn => ?_
  have ⟨d, hd, hn⟩ := List.mem_map.mp hn
  rw [←hn, h d hd]
  rfl

-- An answer is billed as if each of its texts had come in one piece, if no cut makes another group
-- of four of a run of punctuation.
theorem billed_cut_iff (identified : Bool) (estimated : Nat) (parts : List (List String)) :
    billedOutput identified estimated parts.flatten =
        billedOutput identified estimated (parts.map joined) ↔
      (∀ deltas ∈ parts, Aligned 0 deltas) ∨
        4611686018427387904 ≤ tokensFromUnits ((parts.map joined).map tokenUnits).sum := by
  have ⟨k, hk, hz⟩ := sum_parts parts
  rw [billedOutput_eq, billedOutput_eq, any_written, ←hz, hk]
  -- Where nothing was written, nothing was cut.
  have hs (h : ((parts.map joined).map tokenUnits).sum = 0) : k = 0 := by
    have hp : ∀ d ∈ parts.flatten, d = "" := by
      intro d hd
      have ⟨ds, hds, hd⟩ := List.mem_flatten.mp hd
      have hj := List.sum_eq_zero_iff.mp h _ (List.mem_map_of_mem (List.mem_map_of_mem hds))
      exact joined_eq_empty.mp (tokenUnits_eq_zero.mp hj) d hd
    have := sum_eq_zero_of_silent hp
    omega
  have hw (h : (parts.map joined).any (· ≠ "") = false) :
      ((parts.map joined).map tokenUnits).sum = 0 :=
    sum_eq_zero_of_silent fun d hd => by simpa using List.any_eq_false.mp h d hd
  generalize ((parts.map joined).map tokenUnits).sum = total at *
  split
  case isTrue =>
    rw [Option.some.injEq]
    simp only [tokensFromUnits, u64Max]
    omega
  case isFalse h =>
    rw [Bool.not_eq_true, Bool.or_eq_false_iff] at h
    exact iff_of_true rfl (.inl (hs (hw h.right)))

-- A run of four is billed as one token in one piece, and as four tokens in four.
theorem billed_cut_differs :
    billedOutput false 0 ["=", "=", "=", "="] ≠ billedOutput false 0 ["===="] := by
  decide

end

-- What a delta writes, in text, thoughts or arguments.
def ProviderDelta.written : ProviderDelta → String
  | .text answer                   => answer
  | .reasoning thought             => thought
  | .reasoningSignature _          => ""
  | .toolCallChunk _ _ _ arguments => arguments

-- Whether a delta names a call. A name is sent once, and counts as written too.
def ProviderDelta.names : ProviderDelta → Bool
  | .toolCallChunk _ _ name _ => name.any (· ≠ "")
  | _                         => false

namespace StreamGuard

variable [StreamHost] {s : StreamGuard} {cfg : StreamGuardConfig}
  {registry : Option Translate.ToolRegistry} {sends : Nat → Bool} {d : ProviderDelta}
  {ds : List ProviderDelta}

theorem toolCallChunk_units {id name : Option String} {arguments : String}
    (hn : name.any (· ≠ "") = false) (hs : s.outputUnits ≤ u64Max) :
    (s.toolCallChunk registry sends index id name arguments).2.outputUnits =
      satAddU64 s.outputUnits (tokenUnits arguments) := by
  unfold toolCallChunk
  extract_lets id' name' position units s₁ s₂
  have hname : name' = none := by
    cases name
    case none => rfl
    case some n => simp_all [name']
  have ht : s₁.outputUnits = satAddU64 s.outputUnits (tokenUnits arguments) := by
    simp only [s₁, units, hname, outputs, satAddU64, Option.map_none, Option.getD_none]
    omega
  split
  case isTrue ha =>
    have ha : arguments = "" := by
      simp only [ToolCalls.addsNothing, Bool.and_eq_true, decide_eq_true_eq] at ha
      exact ha.left
    rw [ha, tokenUnits_empty, satAddU64, Nat.add_zero, Nat.min_eq_left hs]
  case isFalse =>
    split
    case isTrue => exact ht
    case isFalse =>
      split
      case isTrue => exact ht
      case isFalse =>
        split
        case h_1 p t hp =>
          have hh : t.outputUnits = s₁.outputUnits :=
            congrArg (·.outputUnits) ((addFragment_heard hp).trans rfl : t.toHeard = s₁.toHeard)
          split
          case h_1 => exact hh.trans ht
          case h_2 => exact hh.trans ht

theorem delta_units (hn : d.names = false) (hs : s.outputUnits ≤ u64Max) :
    (s.delta cfg registry sends d).2.outputUnits =
      satAddU64 s.outputUnits (tokenUnits d.written) := by
  cases d
  case text => rfl
  case reasoning => rfl
  case reasoningSignature =>
    simpa [delta, send, ProviderDelta.written, tokenUnits, charUnits, satAddU64] using hs
  case toolCallChunk => exact toolCallChunk_units hn hs

-- A stream counts what its deltas write.
theorem foldl_delta_units (hn : ∀ d ∈ ds, d.names = false) (hs : s.outputUnits ≤ u64Max) :
    (ds.foldl (fun s d => (s.delta cfg registry sends d).2) s).outputUnits =
      (ds.map (·.written)).foldl (fun units d => satAddU64 units (tokenUnits d)) s.outputUnits := by
  induction ds generalizing s
  case nil => rfl
  case cons d ds hi =>
    have ⟨hd, hds⟩ := List.forall_mem_cons.mp hn
    have hu : (s.delta cfg registry sends d).2.outputUnits = _ := delta_units hd hs
    rw [List.foldl_cons, hi hds (hu ▸ Nat.min_le_right _ _), hu]
    rfl

end StreamGuard
end Gateway
