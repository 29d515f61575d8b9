import Superkiro.Gateway.Metering
import Superkiro.Stream.Guard

namespace Gateway

open Billing

-- Whether a fragment carries anything a reader could see.
def ProviderDelta.delivers : ProviderDelta → Bool
  | .text answer                       => answer ≠ ""
  | .reasoning thought                 => thought ≠ ""
  | .reasoningSignature _              => false
  | .toolCallChunk _ id name arguments =>
    arguments ≠ "" || (id.filter (· ≠ "")).isSome || (name.filter (· ≠ "")).isSome

def ProviderStreamEvent.usage? : ProviderStreamEvent → Option TokenUsage
  | .usage u => u
  | _        => none

def Awake.event? (m : Awake) : Option ProviderStreamEvent :=
  match m.wake with
  | .event (some (.ok e)) => e
  | _                     => none

-- What an event adds to what a stream was told of.
inductive Turned : Option ProviderStreamEvent → Heard → Heard → Prop
  | kept : e.bind (·.usage?) = none → Turned e h h
  | output {d} {units : Nat} {saw : Bool} : (saw → d.delivers) → (saw = false → units = 0) →
    Turned (some (.delta d)) h { h with
      sawOutput   := h.sawOutput || saw
      outputUnits := satAddU64 h.outputUnits units }
  | usage : Turned (some (.usage u)) h { h with metered := h.metered.observe u }
  | stopped : Turned (some (.stopReason reason)) h
    { h with stopReason := some (mapStopReason reason) }
  | completed : Turned (some .done) h { h with completed := true }
  | empty : h.sawOutput = false → Turned (some .done) h { h with emptyTurn := true }

-- What is settled counts at least half of the output that streamed, and all that was reported.
theorem resolved_output {t : UsageTokens}
    (h : resolveSettlementTokens usage counted units saw estimated = some t) :
    (if saw then max (tokensFromUnits units) 1 else 0) ≤ 2 * t.outputTokens ∧
      usage.completionTokens ≤ t.outputTokens := by
  simp only [resolveSettlementTokens] at h
  split at h
  case isTrue => cases h
  case isFalse =>
    injection h with h
    subst h
    generalize (if saw then max (tokensFromUnits units) 1 else 0) = streamed
    simp only [Bool.and_eq_true, decide_eq_true_eq]
    split
    case isTrue hf => omega
    case isFalse => omega

namespace StreamGuard

variable {s : StreamGuard} {sends : Nat → Bool} {id name : Option String} {cfg : StreamGuardConfig}

theorem send_heard (h : s.send sends frames = (b, t)) : t.toHeard = s.toHeard :=
  congrArg (·.2.toHeard) h.symm

theorem addFragment_heard (h : s.addFragment position index id name arguments = (p, t)) :
    t.toHeard = s.toHeard := congrArg (·.2.toHeard) h.symm

theorem notice_heard (h : s.notice cfg sends = (b, t)) : t.toHeard = s.toHeard := by
  unfold notice at h
  split at h
  case h_1 => exact send_heard h
  case h_2 => cases h; rfl

theorem tokenUnits_empty : tokenUnits "" = 0 := rfl

theorem done_turned : Turned (some .done) s.toHeard (s.done cfg sends).2.toHeard := by
  unfold done
  split
  case isTrue =>
    split
    case h_1 t hn => exact notice_heard hn ▸ .completed
    case h_2 t hn => exact notice_heard hn ▸ .kept rfl
  case isFalse =>
    split
    case isTrue hs => exact .empty (Bool.not_eq_true' _ ▸ hs)
    case isFalse =>
      have hh (b t) (h : (if s.sawAnswer then (true, s) else s.notice cfg sends) = (b, t)) :
          t.toHeard = s.toHeard := by
        split at h
        case isTrue => cases h; rfl
        case isFalse => exact notice_heard h
      split
      case h_1 t ht => exact hh _ _ ht ▸ .kept rfl
      case h_2 t ht =>
        split
        case h_1 u hu => exact hh _ _ ht ▸ send_heard hu ▸ .completed
        case h_2 u hu => exact hh _ _ ht ▸ send_heard hu ▸ .kept rfl

variable [StreamHost] {registry : Option Translate.ToolRegistry}

theorem toolCallChunk_turned :
    Turned (some (.delta (.toolCallChunk index id name arguments))) s.toHeard
      (s.toolCallChunk registry sends index id name arguments).2.toHeard := by
  unfold toolCallChunk
  extract_lets id' name' position units s₁ s₂
  have ht : Turned (some (.delta (.toolCallChunk index id name arguments))) s.toHeard
      s₁.toHeard := by
    apply Turned.output
    case a => simp [ProviderDelta.delivers, id', name']
    case a =>
      intro hf
      simp only [Bool.or_eq_false_iff, decide_eq_false_iff_not, not_not] at hf
      have ⟨⟨ha, _⟩, hn⟩ := hf
      simp [units, ha, Option.not_isSome_iff_eq_none.mp (Bool.eq_false_iff.mp hn), tokenUnits,
        charUnits, satAddU64]
  split
  case isTrue => exact .kept rfl
  case isFalse =>
    split
    case isTrue => exact ht
    case isFalse =>
      split
      case isTrue => exact ht
      case isFalse =>
        split
        case h_1 p t hp =>
          have hh : t.toHeard = s₁.toHeard := (addFragment_heard hp).trans rfl
          split
          case h_1 => exact hh ▸ ht
          case h_2 => exact hh ▸ ht

theorem delta_turned :
    Turned (some (.delta d)) s.toHeard (s.delta cfg registry sends d).2.toHeard := by
  cases d
  case text answer =>
    refine .output id fun hf => ?_
    simp only [decide_eq_false_iff_not, not_not] at hf
    rw [hf, tokenUnits_empty]
  case reasoning thought =>
    refine .output id fun hf => ?_
    simp only [decide_eq_false_iff_not, not_not] at hf
    rw [hf, tokenUnits_empty]
  case reasoningSignature => exact .kept rfl
  case toolCallChunk => exact toolCallChunk_turned

theorem usage_turned : Turned (some (.usage u)) s.toHeard (s.usage cfg sends u).2.toHeard := .usage

theorem event_turned : Turned (Awake.event? ⟨.event e, sends⟩) s.toHeard
    (s.event cfg registry sends e).2.toHeard := by
  unfold event
  split
  case h_1 => exact delta_turned
  case h_7 => exact usage_turned
  case h_8 => exact .stopped
  case h_9 => exact done_turned
  all_goals exact .kept rfl

theorem turn_turned : Turned m.event? s.toHeard (s.turn cfg registry m).2.toHeard := by
  have ⟨wake, sends⟩ := m
  cases wake
  case event e => exact event_turned
  all_goals exact .kept rfl

end StreamGuard

-- What a stream knows of the events it has seen.
structure Traced (events : List ProviderStreamEvent) (h : Heard) : Prop where
  metered   : h.metered = Gateway.metered (events.filterMap (·.usage?))
  output    : h.sawOutput → ∃ d, .delta d ∈ events ∧ d.delivers
  silent    : h.sawOutput = false → h.outputUnits = 0
  stopped   : h.stopReason.isSome → ∃ reason, .stopReason reason ∈ events
  completed : h.completed → .done ∈ events
  empty     : h.emptyTurn → .done ∈ events

namespace Traced

variable {events : List ProviderStreamEvent} {e : Option ProviderStreamEvent}

theorem start : Traced [] {} where
  metered := rfl
  output := nofun
  silent _ := rfl
  stopped := nofun
  completed := nofun
  empty := nofun

theorem usages_concat :
    (events ++ e.toList).filterMap (·.usage?) =
      events.filterMap (·.usage?) ++ (e.bind (·.usage?)).toList := by
  cases e
  case none => simp
  case some e => cases he : e.usage? <;> simp [he]

-- What was known of events still holds of more of them.
theorem later (hs : Traced events h)
    (hm : h'.metered = Gateway.metered ((events ++ more).filterMap (·.usage?)))
    (hh : h' = { h with metered := h'.metered }) : Traced (events ++ more) h' := by
  rw [hh]
  exact {
    metered := hm
    output ho := have ⟨d, hd, hv⟩ := hs.output ho; ⟨d, List.mem_append_left _ hd, hv⟩
    silent := hs.silent
    stopped hr := have ⟨reason, hm⟩ := hs.stopped hr; ⟨reason, List.mem_append_left _ hm⟩
    completed hc := List.mem_append_left _ <| hs.completed hc
    empty he := List.mem_append_left _ <| hs.empty he }

theorem kept (hs : Traced events h) (he : e.bind (·.usage?) = none) :
    Traced (events ++ e.toList) h := by
  apply hs.later
  case hm => rw [hs.metered, usages_concat, he, Option.toList_none, List.append_nil]
  case hh => rfl

theorem usage (hs : Traced events h) :
    Traced (events ++ [.usage u]) { h with metered := h.metered.observe u } := by
  apply hs.later
  case hm => simp [hs.metered, Gateway.metered, ProviderStreamEvent.usage?]
  case hh => rfl

theorem turned (hs : Traced events h) (ht : Turned e h h') : Traced (events ++ e.toList) h' := by
  have hl {e : ProviderStreamEvent} : e ∈ events ++ (some e).toList := by simp
  cases ht
  case kept hk => exact hs.kept hk
  case output d units saw hd hu =>
    have hs := hs.kept (e := some (.delta d)) rfl
    cases hw : saw
    case false =>
      exact { hs with
        output ho := hs.output <| by simpa using ho
        silent hf := by simp [hs.silent <| by simpa using hf, hu hw, satAddU64] }
    case true =>
      exact { hs with
        output _ := ⟨d, hl, hd hw⟩
        silent hf := by simp at hf }
  case usage u => exact hs.usage
  case stopped reason => exact { hs.kept rfl with stopped _ := ⟨reason, hl⟩ }
  case completed => exact { hs.kept rfl with completed _ := hl }
  case empty => exact { hs.kept rfl with empty _ := hl }

variable [StreamHost] {cfg : StreamGuardConfig} {registry : Option Translate.ToolRegistry}

theorem loop {s : StreamGuard} (hs : Traced events s.toHeard) :
    Traced (events ++ (s.loop cfg registry ms).1.filterMap (·.event?))
      (s.loop cfg registry ms).2.toHeard := by
  have ht {events} {s : StreamGuard} (hs : Traced events s.toHeard) (m : Awake) :
      Traced (events ++ m.event?.toList) (s.turn cfg registry m).2.toHeard :=
    hs.turned StreamGuard.turn_turned
  induction ms generalizing s events
  case nil => exact ht hs ⟨.event none, fun _ => true⟩
  case cons m ms hi =>
    have hm : [m].filterMap (·.event?) = m.event?.toList := by cases he : m.event? <;> simp [he]
    have ht := ht hs m
    unfold StreamGuard.loop
    split
    case h_1 t he =>
      rw [he] at ht
      have hi := hi ht
      rwa [List.append_assoc, ← hm, ← List.filterMap_append] at hi
    case h_2 t he =>
      rw [he] at ht
      rwa [hm]

end Traced

namespace StreamGuard

def Effect.settled? : Effect → Option UsageTokens
  | .settled tokens => tokens
  | _               => none

-- The invocation's guard that an effect ends.
def Effect.ended? : Effect → Option String
  | .committed id _ => id
  | .failed id      => id
  | .released id    => id
  | _               => none

-- How an invocation's guard can end after `frames` were sent.
inductive Ended (cfg : StreamGuardConfig) (s : StreamGuard) (e : Ending) (frames : List Frame) :
    (String → Effect) → Prop
  | committed : (∀ tokens, s.attempt = some tokens → (e.settled tokens).isOk) →
    s.stopFrame ∈ frames → Ended cfg s e frames (.committed · (s.record cfg e.now))
  | failed : s.attempt.isSome → Ended cfg s e frames .failed
  | released : s.attempt = none → Ended cfg s e frames .released

variable {cfg : StreamGuardConfig} {s : StreamGuard} {guard : Option String} {e : Ending}

theorem Ended.unsettled :
    Ended cfg s e frames fun id => if s.attempt.isSome then .failed id else .released id := by
  cases h : s.attempt
  case none => exact .released h
  case some => exact .failed (by simp [h])

-- A stream settles, sends what's left of its response and ends its invocation. It may have to tell
-- of a failure.
theorem finalize_ended (cfg : StreamGuardConfig) (s : StreamGuard) (guard : Option String)
    (e : Ending) : ∃ (before after : List Frame) (ended : String → Effect),
    Ended cfg s e before ended ∧
      s.finalize cfg guard e = (s.attempt.map Effect.settled).toList ++ before.map .sent ++
        (guard.map ended).toList ++ after.map .sent := by
  unfold finalize
  extract_lets failure answer settlementOk settled charged stopSent ended ended' failure'
  split
  case isTrue h =>
    let before := (charged.map Frame.metering).toList ++ if stopSent then [s.stopFrame] else []
    refine ⟨before, [], fun id => if stopSent then .committed id (s.record cfg e.now) else
      if s.attempt.isSome then .failed id else .released id, ?_, ?_⟩
    case refine_1 =>
      cases hs : stopSent
      case false => exact .unsettled
      case true =>
        apply Ended.committed
        case a =>
          intro tokens ht
          simp only [Bool.and_eq_true, settlementOk, answer, ht, Option.map_some,
            Option.all_some] at h
          exact h.right
        case a => simp [before, hs]
    case refine_2 =>
      simp only [before, ended, settled]
      clear_value charged stopSent
      cases charged <;> cases stopSent <;> simp
  case isFalse h =>
    let told := (failure'.filter fun _ => e.exceptionSent).map Failure.frame
    refine ⟨[], told.toList, _, .unsettled, ?_⟩
    simp [settled, ended', told, ← Option.toList_map, Function.comp_def]

theorem attempt_counted (hs : Traced events s.toHeard) (ha : s.attempt = some t) :
    tokensFromUnits s.outputUnits ≤ 2 * t.outputTokens ∧
      s.metered.usage.completionTokens ≤ t.outputTokens := by
  simp only [attempt, Option.bind_eq_some_iff, Option.filter_eq_some_iff] at ha
  have ⟨settler, _, ht, _⟩ := ha
  have ⟨ho, hr⟩ := resolved_output ht
  refine ⟨?_, hr⟩
  cases hw : s.sawOutput
  case false => simp [hs.silent hw, tokensFromUnits]
  case true =>
    rw [hw, if_pos rfl] at ho
    exact (Nat.le_max_left ..).trans ho

theorem attempt_billable (hs : Traced events s.toHeard) (ha : s.attempt = some t) :
    (∃ d, .delta d ∈ events ∧ d.delivers) ∨ (s.completed ∧ .done ∈ events) ∨
      (s.sawOutput = false ∧ .done ∈ events ∧ ∃ reason, .stopReason reason ∈ events) := by
  simp only [attempt, Option.bind_eq_some_iff, Option.filter_eq_some_iff, billable,
    Bool.and_eq_true, Bool.or_eq_true] at ha
  have ⟨settler, _, _, hb, _⟩ := ha
  cases hw : s.sawOutput
  case true => exact .inl <| hs.output hw
  case false =>
    obtain (ho | hc) | ⟨he, hr⟩ := hb
    · simp [hw] at ho
    · exact .inr <| .inl ⟨hc, hs.completed hc⟩
    · exact .inr <| .inr ⟨rfl, hs.empty he, hs.stopped hr⟩

end StreamGuard

-- How a stream ends its invocation whose loop saw `events` and was left with `s`.
structure Ends (events : List ProviderStreamEvent) (s : StreamGuard) (guard : Option String)
    (e : StreamGuard.Ending) (effects : List StreamGuard.Effect) : Prop where
  once      : effects.countP (·.settled?.isSome) ≤ 1
  billable  : ∀ tokens, .settled tokens ∈ effects → (∃ d, .delta d ∈ events ∧ d.delivers) ∨
    (s.completed ∧ .done ∈ events) ∨
    (s.sawOutput = false ∧ .done ∈ events ∧ ∃ reason, .stopReason reason ∈ events)
  ended     : effects.filterMap (·.ended?) = guard.toList
  released  : ∀ id tokens, .released id ∈ effects → .settled tokens ∉ effects
  committed : ∀ id record, .committed id record ∈ effects → .sent s.stopFrame ∈ effects ∧
    ∀ tokens, .settled tokens ∈ effects → (e.settled tokens).isOk
  failed    : ∀ id, .failed id ∈ effects → ∃ tokens, .settled tokens ∈ effects
  estimated : ∀ tokens, .settled tokens ∈ effects →
    tokensFromUnits s.outputUnits ≤ 2 * tokens.outputTokens
  reported  : ∀ tokens u, .settled tokens ∈ effects → .usage u ∈ events →
    u.completionTokens ≤ tokens.outputTokens

namespace StreamGuard

section Effects

-- What a stream does, all in all.
def effects (s : StreamGuard) (guard : Option String) (was before after : List Frame)
    (ended : String → Effect) : List Effect :=
  was.map .sent ++ ((s.attempt.map Effect.settled).toList ++ before.map .sent ++
    (guard.map ended).toList ++ after.map .sent)

variable {s : StreamGuard} {guard : Option String} {was before after : List Frame}
  {ended : String → Effect} {id : String} {r : CompletedInvocation}

theorem Ended.own (he : Ended cfg s e before ended) (id : String) :
    (ended id).ended? = some id ∧ (ended id).settled? = none := by
  cases he <;> exact ⟨rfl, rfl⟩

theorem mem_effects {x : Effect} : x ∈ effects s guard was before after ended ↔
    (∃ f, (f ∈ was ∨ f ∈ before ∨ f ∈ after) ∧ x = .sent f) ∨
      (∃ t, s.attempt = some t ∧ x = .settled t) ∨ ∃ id, guard = some id ∧ x = ended id := by
  simp only [effects, List.mem_append, List.mem_map, Option.mem_toList,
    Option.map_eq_some_iff]
  grind

theorem ended_of_mem {x : Effect} (hx : x ∈ effects s guard was before after ended)
    (hi : x.ended?.isSome) : ∃ id, guard = some id ∧ x = ended id := by
  obtain ⟨_, _, h⟩ | ⟨_, _, h⟩ | h := mem_effects.mp hx
  · simp [h, Effect.ended?] at hi
  · simp [h, Effect.ended?] at hi
  · exact h

variable (he : Ended cfg s e before ended)

include he

theorem Ended.settled_iff :
    .settled t ∈ effects s guard was before after ended ↔ s.attempt = some t := by
  rw [mem_effects]
  constructor
  case mp =>
    rintro (⟨_, _, h⟩ | ⟨_, ht, h⟩ | ⟨id, _, h⟩)
    · cases h
    · cases h
      exact ht
    · exact nomatch (congrArg (·.settled?) h).trans (he.own id).right
  case mpr => exact fun h => .inr <| .inl ⟨t, h, rfl⟩

theorem Ended.once : (effects s guard was before after ended).countP (·.settled?.isSome) ≤ 1 := by
  have hf (fs : List Frame) : (fs.map Effect.sent).countP (·.settled?.isSome) = 0 := by
    simp [List.countP_map, Effect.settled?, Function.comp_def]
  have hg : (guard.map ended).toList.countP (·.settled?.isSome) = 0 := by
    cases guard <;> simp [he.own]
  have ha : (s.attempt.map Effect.settled).toList.countP (·.settled?.isSome) ≤ 1 := by
    cases s.attempt <;> simp [Effect.settled?]
  simpa only [effects, List.countP_append, hf, hg, Nat.zero_add, Nat.add_zero] using ha

theorem Ended.once_ended :
    (effects s guard was before after ended).filterMap (·.ended?) = guard.toList := by
  have hf (fs : List Frame) : (fs.map Effect.sent).filterMap (·.ended?) = [] := by
    simp [List.filterMap_map, Effect.ended?]
  have hg : (guard.map ended).toList.filterMap (·.ended?) = guard.toList := by
    cases guard <;> simp [he.own]
  have ha : (s.attempt.map Effect.settled).toList.filterMap (·.ended?) = [] := by
    cases s.attempt <;> simp [Effect.ended?]
  simp [effects, List.filterMap_append, hf, hg, ha]

theorem Ended.of_committed
    (hc : .committed id r ∈ effects s guard was before after ended) :
    .sent s.stopFrame ∈ effects s guard was before after ended ∧
      ∀ t, s.attempt = some t → (e.settled t).isOk := by
  have ⟨_, _, h⟩ := ended_of_mem hc rfl
  cases he
  case committed ht hs => exact ⟨mem_effects.mpr <| .inl ⟨_, .inr <| .inl hs, rfl⟩, ht⟩
  all_goals cases h

theorem Ended.of_failed (hf : .failed id ∈ effects s guard was before after ended) :
    s.attempt.isSome := by
  have ⟨_, _, h⟩ := ended_of_mem hf rfl
  cases he
  case failed ht => exact ht
  all_goals cases h

theorem Ended.of_released (hr : .released id ∈ effects s guard was before after ended) :
    s.attempt = none := by
  have ⟨_, _, h⟩ := ended_of_mem hr rfl
  cases he
  case released ht => exact ht
  all_goals cases h

end Effects

theorem completion_observed {m : Metered} (u : TokenUsage) :
    m.usage.completionTokens ≤ (m.observe u).usage.completionTokens ∧
      u.completionTokens ≤ (m.observe u).usage.completionTokens :=
  ⟨Nat.le_max_left .., Nat.le_max_right ..⟩

theorem completion_metered (hu : u ∈ reports) :
    u.completionTokens ≤ (metered reports).usage.completionTokens := by
  induction reports using List.reverseRecOn
  case nil => cases hu
  case append_singleton reports o hi =>
    have ⟨hm, ho⟩ := completion_observed (m := metered reports) o
    rw [metered, List.foldl_append]
    obtain hu | hu := List.mem_append.mp hu
    · exact (hi hu).trans hm
    · rw [List.mem_singleton.mp hu]
      exact ho

variable [StreamHost]

theorem stream_ends (cfg : StreamGuardConfig) (registry : Option Translate.ToolRegistry)
    (settler : Option BillingSettler) (guard : Option String) (ms : List Awake) (e : Ending) :
    let run := (start settler).loop cfg registry ms
    Ends (run.1.filterMap (·.event?)) run.2 guard e
      (createStreamGuard cfg registry settler guard ms e) := by
  intro run
  have hn : Traced [] (start settler).toHeard := Traced.start
  have hs : Traced (run.1.filterMap (·.event?)) run.2.toHeard := hn.loop
  have ⟨before, after, ended, he, hf⟩ := finalize_ended cfg run.2 guard e
  have hc : createStreamGuard cfg registry settler guard ms e =
      effects run.2 guard run.2.sent before after ended :=
    congrArg (run.2.sent.map Effect.sent ++ ·) hf
  rw [hc]
  have ha {t} : .settled t ∈ effects run.2 guard run.2.sent before after ended ↔
      run.2.attempt = some t := he.settled_iff
  exact {
    once := he.once
    billable t ht := attempt_billable hs <| ha.mp ht
    ended := he.once_ended
    released id t hr ht := nomatch (ha.mp ht).symm.trans (he.of_released hr)
    committed id record hc :=
      have ⟨hs, ht⟩ := he.of_committed hc
      ⟨hs, fun t h => ht t <| ha.mp h⟩
    failed id hf :=
      have ⟨t, ht⟩ := Option.isSome_iff_exists.mp <| he.of_failed hf
      ⟨t, ha.mpr ht⟩
    estimated t ht := (attempt_counted hs <| ha.mp ht).left
    reported t u ht hu := by
      have hm := (attempt_counted hs <| ha.mp ht).right
      rw [hs.metered] at hm
      exact (completion_metered <| List.mem_filterMap.mpr ⟨_, hu, rfl⟩).trans hm }

end StreamGuard
end Gateway
