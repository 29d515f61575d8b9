import Superkiro.Stream.Settlement

namespace Gateway

open Billing

-- An attempt that ended with an ordinary stop and nothing in it, after reporting usage.
structure EmptyAttempt where
  providerId  : String
  targetModel : String
  usage       : TokenUsage

-- A request's attempts that ended empty. Their input is billed once, but only when every
-- attempt ended so.
structure EmptyAttempts where
  last         : Option EmptyAttempt := none
  otherFailure : Bool := false

namespace EmptyAttempts

def endedEmpty (s : EmptyAttempts) (attempt : EmptyAttempt) : EmptyAttempts :=
  if s.otherFailure then s else { s with last := attempt }

def failedOtherwise (s : EmptyAttempts) : EmptyAttempts :=
  { s with otherFailure := true, last := none }

end EmptyAttempts

-- An upstream's own errors. An empty completion isn't one: it's what an attempt makes of an
-- answer with nothing in it.
def UpstreamError : Type := { e : ProviderError // e ≠ .emptyCompletion }

-- What an attempt's wait for its upstream comes to.
inductive Arrived
  | late
  | ended
  | event (e : Except UpstreamError ProviderStreamEvent)

abbrev Primed := Except ProviderError (List Arrived)

def isExplicitEmptyStop (reason : String) : Bool := endsEmptyTurn (mapStopReason reason)

def ProviderError.retryable : ProviderError → Bool
  | .http status _ => [500, 502, 503, 504].contains status
  | .network _ | .timeout | .noAnswer | .streamDisconnected | .watchdog _ | .emptyCompletion
  | .unavailable => true
  | _ => false

namespace ProviderStreamEvent

def stopReason? : ProviderStreamEvent → Option String
  | .stopReason reason => reason
  | _                  => none

def content : ProviderStreamEvent → Bool
  | .delta d => d.delivers
  | _        => false

-- What an attempt doesn't keep while it waits for content.
def passing : ProviderStreamEvent → Bool
  | .heartbeat                    => true
  | .delta (.reasoningSignature _) => false
  | .delta d                      => !d.delivers
  | _                             => false

end ProviderStreamEvent

-- One attempt at an upstream: where it was sent, and what came of it.
structure Trial where
  providerId  : String
  targetModel : String
  answer      : Except UpstreamError (List Arrived)

namespace Trial

variable (t : Trial)

-- The loop of an attempt that waits for its model's first content, after it has `kept` events.
def primeLoop (slot : EmptyAttempts) (kept : List ProviderStreamEvent)
    (stopReason : Option String) (metered : Bool) : List Arrived → Primed × EmptyAttempts
  | [] | .ended :: _ => (.error .streamDisconnected, slot)
  | .late :: _ => (.error .timeout, slot)
  | .event (.error e) :: _ => (.error e.val, slot)
  | .event (.ok event) :: rest =>
    if event = .done then
      match stopReason with
      | some reason =>
        if metered && isExplicitEmptyStop reason then
          (.ok <| (kept ++ [event]).map (.event <| .ok ·), slot)
        else if metered then
          (.error .emptyCompletion, slot.endedEmpty {
            providerId  := t.providerId
            targetModel := t.targetModel
            usage       := (kept.filterMap (·.usage?)).foldl .merge {} })
        else (.error .streamDisconnected, slot)
      | none => (.error .streamDisconnected, slot)
    else if event.passing then primeLoop slot kept stopReason metered rest
    else
      let kept := kept ++ [event]
      if event.content then (.ok <| kept.map (.event <| .ok ·) ++ rest, slot)
      else if 64 ≤ kept.length then (.error <| .parse "too many events before output", slot)
      else
        primeLoop slot kept (event.stopReason? <|> stopReason) (metered || event.usage?.isSome) rest

-- One attempt, up to its model's first content or an empty answer whose stop reason makes it
-- final.
def prime (slot : EmptyAttempts) : Primed × EmptyAttempts :=
  match t.answer with
  | .ok arrivals => t.primeLoop slot [] none false arrivals
  | .error e     => (.error e.val, slot)

end Trial

-- A target a request is sent to: what each attempt there would meet, and whether a retry
-- after it would be past the route's deadline.
structure Start where
  providerId  : String
  targetModel : String
  maxAttempts : Nat
  answers     : Nat → Except UpstreamError (List Arrived)
  late        : Nat → Bool

-- What a route keeps: its attempts that ended empty, and every attempt it made.
structure Route where
  slot  : EmptyAttempts := {}
  tried : List Trial := []

namespace Route

def prime (r : Route) (t : Trial) : Primed × Route :=
  let (result, slot) := t.prime r.slot
  (result, { slot := slot, tried := r.tried ++ [t] })

-- The attempts at a target from the `i`th on, with `left` more allowed after it.
def startFrom (c : Start) (i : Nat) : Nat → Route → Primed × Route
  | left, r =>
    match r.prime ⟨c.providerId, c.targetModel, c.answers i⟩ with
    | (.ok stream, r)   => (.ok stream, r)
    | (.error error, r) =>
      let r := if error = .emptyCompletion then r else { r with slot := r.slot.failedOtherwise }
      match left with
      | 0        => (.error error, r)
      | left + 1 =>
        if !error.retryable || c.late i then (.error error, r) else startFrom c (i + 1) left r

def startStream (c : Start) (r : Route) : Primed × Route :=
  startFrom c 0 (min (max c.maxAttempts 1) 3 - 1) r

-- The targets in turn, until one answers.
def chain : List Start → Route → Option (List Arrived) × Route
  | [], r      => (none, r)
  | c :: cs, r =>
    match startStream c r with
    | (.ok stream, r) => (some stream, r)
    | (.error _, r)   => chain cs r

end Route

-- What a route ends with: the answer, and the attempt to bill when nothing answered.
def withEmptyAttempt (route : List Start) : Option (List Arrived) × Option EmptyAttempt :=
  let (result, r) := Route.chain route {}
  (result, r.slot.last)

-- The empty attempt of a route that has no answer.
def reportedEmpty (route : List Start) : Option EmptyAttempt :=
  match withEmptyAttempt route with
  | (none, empty) => empty
  | (some _, _)   => none

-- What is billed, and to whom.
structure Bill where
  tokens      : UsageTokens
  providerId  : String
  targetModel : String
  deriving DecidableEq

inductive GuardEnd
  | committed
  | failed
  | released
  deriving DecidableEq

-- What the end of a request does: what it settles, and how its invocation's guard ends.
structure Outcome where
  settles : List Bill
  guard   : List GuardEnd
  deriving DecidableEq

def billEmptyAttempt (estimatedInput : Nat) (empty : Option EmptyAttempt) : Option Bill :=
  empty.bind fun empty =>
    (resolveSettlementTokens empty.usage (reportsInput empty.usage) 0 false estimatedInput).map
      fun tokens => ⟨tokens, empty.providerId, empty.targetModel⟩

-- A route that ends without an answer before the response has started.
def endedBefore (estimatedInput : Nat) (empty : Option EmptyAttempt) : Outcome :=
  match billEmptyAttempt estimatedInput empty with
  | some bill => { settles := [bill], guard := [.failed] }
  | none      => { settles := [], guard := [.released] }

abbrev Upstream := List (Except ProviderError ProviderStreamEvent)

-- The answer of a request whose route was still going when the answer had to begin.
def deferredAnswer (routed : Except KiroError (Upstream × String × String))
    (empty : Option EmptyAttempt) : Upstream :=
  match routed, empty with
  | .ok (answer, providerId, targetModel), _ => .ok (.served providerId targetModel) :: answer
  | .error _, some empty =>
    [.ok (.served empty.providerId empty.targetModel),
      .ok (.usage { empty.usage with outputTokensFinal := true }),
      .ok (.stopReason "end_turn"),
      .ok .done]
  | .error error, none => [.ok (.failed error)]

def Wake.given? : Wake → Option (Option (Except ProviderError ProviderStreamEvent))
  | .event e => some e
  | _        => none

-- A stream's loop is given an upstream's events in their order.
def Delivers (es : Upstream) (ms : List Awake) : Prop :=
  ms.filterMap (·.wake.given?) = es.map some

-- Whether the loop goes on after a turn with nothing to show: it isn't stopped, and what it
-- sends arrives.
def Awake.goesOn (m : Awake) : Bool :=
  match m.wake with
  | .closed | .deadline | .stopping  => false
  | .tick                            => m.sends 0
  | .event (some (.ok (.usage _)))   => m.sends 0 && m.sends 1
  | .event _                         => true

-- Whether the loop gets to the end of an answer with nothing in it.
def reachesDone : List Awake → Bool
  | []      => false
  | m :: ms => decide (m.event? = some .done) || (m.goesOn && reachesDone ms)

namespace StreamGuard

def Effect.guard? : Effect → Option GuardEnd
  | .committed .. => some .committed
  | .failed _     => some .failed
  | .released _   => some .released
  | _             => none

-- What an event that isn't output or an end leaves a stream with.
def told (s : StreamGuard) : ProviderStreamEvent → StreamGuard
  | .served providerId targetModel =>
    let settler := s.settler.map fun settler =>
      { settler with providerId := providerId, targetModel := targetModel }
    { s with settler := settler, signingModel := settler.map (·.targetModel) }
  | .usage u           => { s with sawUsageFrame := true, metered := s.metered.observe u }
  | .stopReason reason => { s with stopReason := some (mapStopReason reason) }
  | _                  => s

-- An event that tells a stream about the answer, and is no part of it.
inductive Tells : ProviderStreamEvent → Prop
  | served : Tells (.served providerId targetModel)
  | usage : Tells (.usage u)
  | stopReason : Tells (.stopReason reason)

-- A stream that hasn't shown anything, and whose turn hasn't ended.
structure Silent (s : StreamGuard) : Prop where
  output    : s.sawOutput = false
  completed : s.completed = false
  empty     : s.emptyTurn = false

variable {s : StreamGuard} {cfg : StreamGuardConfig} {sends : Nat → Bool} {sent : List Frame}
  {es : List ProviderStreamEvent}

theorem Silent.attempt (h : s.Silent) : s.attempt = none := by
  cases hs : s.settler <;> simp [StreamGuard.attempt, hs, billable, h.output, h.completed, h.empty]

theorem Silent.told (h : s.Silent) : (s.told e).Silent := by
  cases e <;> exact ⟨h.output, h.completed, h.empty⟩

@[simp]
theorem told_sent : told { s with sent := sent } e = { s.told e with sent := sent } := by
  cases e <;> rfl

theorem foldl_told_sent :
    es.foldl told { s with sent := sent } = { es.foldl told s with sent := sent } := by
  induction es generalizing s
  case nil => rfl
  case cons e es hi => rw [List.foldl_cons, told_sent, hi, List.foldl_cons]

theorem send_one : ∃ sent, s.send sends [f] = (sends 0, { s with sent := sent }) := by
  refine ⟨_, Prod.ext ?_ rfl⟩
  cases h : sends 0 <;> simp [send, List.zipIdx, h]

theorem send_two : ∃ sent, s.send sends [f, g] = (sends 0 && sends 1, { s with sent := sent }) := by
  refine ⟨_, Prod.ext ?_ rfl⟩
  cases h : sends 0 <;> cases h' : sends 1 <;> simp [send, List.zipIdx, h, h']

theorem done_ends : (s.done cfg sends).1 = false := by
  unfold done
  repeat' split
  all_goals rfl

-- What a stream settles, and with whom.
def bill? (s : StreamGuard) : Option Bill :=
  s.attempt.bind fun tokens =>
    s.settler.map fun settler => ⟨tokens, settler.providerId, settler.targetModel⟩

-- How a stream without an answer ends its request.
def outcome (s : StreamGuard) : Outcome where
  settles := s.bill?.toList
  guard   := [if s.attempt.isSome then .failed else .released]

section Finalize

variable {id : String} {e : Ending}

variable (cfg id e) in
theorem finalize_unanswered (hc : s.completed = false) :
    ∃ told : List Frame, s.finalize cfg (some id) e =
      (s.attempt.map Effect.settled).toList ++
        [if s.attempt.isSome then .failed id else .released id] ++ told.map .sent := by
  unfold finalize
  extract_lets failure answer settlementOk settled charged stopSent ended ended' failure'
  rw [hc, Bool.false_and, if_neg Bool.false_ne_true]
  refine ⟨((failure'.filter fun _ => e.exceptionSent).map Failure.frame).toList, ?_⟩
  simp [settled, ended', ← Option.toList_map, Function.comp_def]

theorem sent_quiet (fs : List Frame) :
    (fs.map Effect.sent).filterMap (·.guard?) = [] ∧
      (fs.map Effect.sent).filterMap (·.settled?) = [] := by
  constructor <;> simp [List.filterMap_map, Effect.guard?, Effect.settled?]

theorem finalize_guard (hc : s.completed = false) :
    (s.finalize cfg (some id) e).filterMap (·.guard?) = s.outcome.guard := by
  have ⟨told, h⟩ := finalize_unanswered cfg id e hc
  rw [h]
  cases ha : s.attempt <;> simp [outcome, ha, Effect.guard?]

theorem finalize_settled (hc : s.completed = false) :
    (s.finalize cfg (some id) e).filterMap (·.settled?) = s.attempt.toList := by
  have ⟨told, h⟩ := finalize_unanswered cfg id e hc
  rw [h]
  cases ha : s.attempt <;> simp [Effect.settled?]

end Finalize

variable [StreamHost] {registry : Option Translate.ToolRegistry}

variable (cfg registry) in
-- A turn that isn't given an event changes nothing that's billed.
theorem turn_ungiven (h : m.wake.given? = none) (hs : s.Silent) :
    (m.goesOn → ∃ sent, s.turn cfg registry m = (true, { s with sent := sent })) ∧
      (m.goesOn = false → (s.turn cfg registry m).1 = false ∧
        (s.turn cfg registry m).2.Silent) := by
  have ⟨wake, sends⟩ := m
  cases wake
  case event => cases h
  case closed => exact ⟨nofun, fun _ => ⟨rfl, hs⟩⟩
  case deadline => exact ⟨nofun, fun _ => ⟨rfl, hs⟩⟩
  case stopping => exact ⟨nofun, fun _ => ⟨rfl, hs.output, hs.completed, hs.empty⟩⟩
  case tick =>
    have ⟨sent, hf⟩ : ∃ sent, s.send sends [.keepalive] = (sends 0, { s with sent := sent }) :=
      send_one
    have ht : s.turn cfg registry ⟨.tick, sends⟩ = (sends 0, { s with sent := sent }) := hf
    rw [ht]
    exact ⟨fun hg => ⟨sent, Prod.ext hg rfl⟩, fun hg => ⟨hg, hs.output, hs.completed, hs.empty⟩⟩

variable (s cfg sends registry) in
theorem turn_told (h : Tells e) :
    ∃ sent, s.turn cfg registry ⟨.event (some (.ok e)), sends⟩ =
      ((⟨.event (some (.ok e)), sends⟩ : Awake).goesOn, { s.told e with sent := sent }) := by
  cases h
  case served => exact ⟨s.sent, rfl⟩
  case usage u => exact send_two
  case stopReason => exact ⟨s.sent, rfl⟩

theorem loop_goes (h : s.turn cfg registry m = (true, t)) :
    (s.loop cfg registry (m :: ms)).2 = (t.loop cfg registry ms).2 := by
  rw [loop, h]

theorem loop_stops (h : (s.turn cfg registry m).1 = false) :
    (s.loop cfg registry (m :: ms)).2 = (s.turn cfg registry m).2 := by
  have h : s.turn cfg registry m = (false, (s.turn cfg registry m).2) := Prod.ext h rfl
  rw [loop, h]

omit [StreamHost] in
theorem delivers_cons {e : Except ProviderError ProviderStreamEvent} {us : Upstream} :
    Delivers (e :: us) (⟨.event x, sends⟩ :: ms) ↔ x = some e ∧ Delivers us ms := by
  simp [Delivers, Wake.given?]

variable (cfg registry) in
-- A stream that's told about an answer with nothing in it ends its turn with all it was told, or
-- stops before that.
theorem loop_told (ht : ∀ e ∈ es, Tells e) (hd : Delivers (es.map .ok ++ [.ok .done]) ms)
    (hs : s.Silent) :
    (reachesDone ms → ∃ sent sends,
      (s.loop cfg registry ms).2 = ({ es.foldl told s with sent := sent }.done cfg sends).2) ∧
      (reachesDone ms = false → (s.loop cfg registry ms).2.Silent) := by
  induction ms generalizing es s
  case nil => simp [Delivers] at hd
  case cons m ms hi =>
    cases hg : m.wake.given?
    case none =>
      have hd : Delivers (es.map .ok ++ [.ok .done]) ms := by simpa [Delivers, hg] using hd
      have he : m.event? ≠ some .done := by
        have ⟨wake, _⟩ := m
        cases wake <;> simp [Wake.given?, Awake.event?] at hg ⊢
      have ⟨hgo, hstop⟩ := turn_ungiven cfg registry hg hs
      cases hm : m.goesOn
      case false =>
        have ⟨h, hn⟩ := hstop hm
        simpa [reachesDone, he, hm, loop_stops h] using hn
      case true =>
        have ⟨sent, h⟩ := hgo hm
        have ⟨hr, hn⟩ := hi ht hd (s := { s with sent := sent }) ⟨hs.output, hs.completed, hs.empty⟩
        rw [loop_goes h]
        simp only [reachesDone, he, hm, decide_false, Bool.false_or, Bool.true_and]
        refine ⟨fun hd => ?_, hn⟩
        have ⟨sent', sends, h⟩ := hr hd
        exact ⟨sent', sends, by rw [h, foldl_told_sent]⟩
    case some x =>
      have ⟨wake, sends⟩ := m
      cases wake
      case event e =>
        cases es
        case nil =>
          have ⟨he, _⟩ := delivers_cons.mp hd
          subst he
          have h : (s.turn cfg registry ⟨.event (some (.ok .done)), sends⟩).1 = false := done_ends
          refine ⟨fun _ => ⟨s.sent, sends, loop_stops h⟩, fun hn => ?_⟩
          simp [reachesDone, Awake.event?] at hn
        case cons a es =>
          have ⟨he, hes⟩ := delivers_cons.mp hd
          have ⟨ha, ht⟩ := List.forall_mem_cons.mp ht
          subst he
          have ⟨sent, h⟩ := turn_told s cfg sends registry ha
          have hn : (⟨.event (some (.ok a)), sends⟩ : Awake).event? ≠ some .done := by
            cases ha <;> simp [Awake.event?]
          cases hm : (⟨.event (some (.ok a)), sends⟩ : Awake).goesOn
          case false =>
            rw [hm] at h
            have hs : (s.told a).Silent := hs.told
            rw [loop_stops (congrArg (·.1) h), h]
            simp only [reachesDone, hn, hm, decide_false, Bool.false_or, Bool.false_and]
            exact ⟨nofun, fun _ => ⟨hs.output, hs.completed, hs.empty⟩⟩
          case true =>
            rw [hm] at h
            have hs : (s.told a).Silent := hs.told
            have ⟨hr, hstop⟩ := hi ht hes (s := { s.told a with sent := sent })
              ⟨hs.output, hs.completed, hs.empty⟩
            rw [loop_goes h]
            simp only [reachesDone, hn, hm, decide_false, Bool.false_or, Bool.true_and]
            refine ⟨fun hd => ?_, hstop⟩
            have ⟨sent', sends, h⟩ := hr hd
            exact ⟨sent', sends, by rw [h, foldl_told_sent, List.foldl_cons]⟩
      all_goals cases hg

end StreamGuard

-- A route that ends while the stream runs that it feeds.
def endedAfter [StreamHost] (cfg : StreamGuardConfig) (registry : Option Translate.ToolRegistry)
    (settler : BillingSettler) (id : String) (ms : List Awake) (e : StreamGuard.Ending) :
    Outcome :=
  let s := ((StreamGuard.start settler).loop cfg registry ms).2
  let effects := createStreamGuard cfg registry settler (some id) ms e
  { settles := (effects.filterMap (·.settled?)).filterMap fun tokens =>
      s.settler.map fun settler => ⟨tokens, settler.providerId, settler.targetModel⟩
    guard   := effects.filterMap (·.guard?) }

namespace EmptyAttempt

section Bill

variable {u : TokenUsage} {estimated : Nat}

theorem merge_start : (TokenUsage.merge {} u).uncachedPromptTokens = u.uncachedPromptTokens ∧
    (TokenUsage.merge {} u).completionTokens = u.completionTokens ∧
    (TokenUsage.merge {} u).cacheRead = u.cacheRead ∧
    (TokenUsage.merge {} u).cacheCreation = u.cacheCreation := by
  cases h : u.promptFinal <;> cases u.cacheReadInputTokens <;> cases u.cacheCreationInputTokens <;>
    simp [TokenUsage.merge, TokenUsage.mergePrompt, TokenUsage.cacheRead, TokenUsage.cacheCreation,
      h]

-- An empty answer's settlement counts what its usage reports, whether that's final or not.
theorem resolve_empty : resolveSettlementTokens u counted 0 false estimated =
    if !counted && u.completionTokens = 0 then none else some {
      uncachedInputTokens :=
        if counted then u.uncachedPromptTokens else max estimated 1
      outputTokens        := u.completionTokens
      cacheCreationTokens := u.cacheCreation
      cacheReadTokens     := u.cacheRead } := by
  simp [resolveSettlementTokens]

theorem resolve_handed :
    resolveSettlementTokens (TokenUsage.merge {} { u with outputTokensFinal := true })
      counted 0 false estimated = resolveSettlementTokens u counted 0 false estimated := by
  have ⟨hp, hc, hr, hw⟩ := merge_start (u := { u with outputTokensFinal := true })
  rw [resolve_empty, resolve_empty, hp, hc, hr, hw]
  rfl

variable (u estimated) in
theorem resolve_counted : (resolveSettlementTokens u true 0 false estimated).isSome := by
  simp [resolve_empty]

end Bill

variable [StreamHost] {cfg : StreamGuardConfig} {registry : Option Translate.ToolRegistry}
  {settler : BillingSettler} {id : String} {e : StreamGuard.Ending} {ms : List Awake}
  (empty : EmptyAttempt)

theorem endedAfter_eq (hs : ((StreamGuard.start settler).loop cfg registry ms).2 = s)
    (hc : s.completed = false) : endedAfter cfg registry settler id ms e = s.outcome := by
  have hq := StreamGuard.sent_quiet s.sent
  have he : createStreamGuard cfg registry settler (some id) ms e =
      s.sent.map .sent ++ s.finalize cfg (some id) e := by rw [createStreamGuard, hs]
  rw [endedAfter, he, hs]
  simp only [List.filterMap_append, hq, List.nil_append, StreamGuard.finalize_guard hc,
    StreamGuard.finalize_settled hc]
  cases ha : s.attempt <;> cases ht : s.settler <;>
    simp [StreamGuard.outcome, StreamGuard.bill?, ha, ht]

-- What an empty answer's stream has been told when it ends.
def told (settler : BillingSettler) : StreamGuard :=
  [.served empty.providerId empty.targetModel,
    .usage { empty.usage with outputTokensFinal := true },
    .stopReason "end_turn"].foldl StreamGuard.told (.start settler)

omit [StreamHost] in
theorem done_empty {s : StreamGuard} (ho : s.sawOutput = false)
    (hr : s.stopReason = some "end_turn") : (s.done cfg sends).2 = { s with
      rejectedEmpty := !s.metered.hasInputUsage
      emptyTurn     := true
      failure       := some <| if s.metered.hasInputUsage then .shown emptyAnswerBilled
        else { error := "Upstream completed without producing any output" } } := by
  have he : endsEmptyTurn "end_turn" = false := by decide
  simp [StreamGuard.done, StreamGuard.fail, ho, hr, he]

omit [StreamHost] in
-- An empty turn's input is settled as far as it was reported.
theorem attempt_empty {s : StreamGuard} (hs : s.settler = some settler) (ho : s.sawOutput = false)
    (hu : s.outputUnits = 0) (he : s.emptyTurn) (hr : s.stopReason.isSome)
    (hj : s.rejectedEmpty = !s.metered.hasInputUsage) :
    s.attempt = if s.metered.hasInputUsage then
      resolveSettlementTokens s.metered.usage true 0 false settler.estimatedInputTokens
    else none := by
  cases h : s.metered.hasInputUsage
  case false => simp [StreamGuard.attempt, hs, hj, h]
  case true =>
    obtain ⟨tokens, ht⟩ := Option.isSome_iff_exists.mp <|
      resolve_counted s.metered.usage settler.estimatedInputTokens
    simp [StreamGuard.attempt, StreamGuard.tokens, StreamGuard.billable, hs, hj, h, ho, hu, he, hr,
      ht]

omit [StreamHost] in
theorem outcome_done :
    (({ empty.told settler with sent := sent } : StreamGuard).done cfg sends).2.outcome =
      if reportsInput empty.usage then endedBefore settler.estimatedInputTokens (some empty)
      else { settles := [], guard := [.released] } := by
  rw [done_empty rfl rfl]
  have ha := attempt_empty (s := { empty.told settler with
      sent          := sent
      rejectedEmpty := !(empty.told settler).metered.hasInputUsage
      emptyTurn     := true
      failure       := some <| if (empty.told settler).metered.hasInputUsage then
        .shown emptyAnswerBilled
      else { error := "Upstream completed without producing any output" } }) rfl rfl rfl rfl rfl rfl
  have hm : (empty.told settler).metered.hasInputUsage = reportsInput empty.usage := rfl
  have hu : (empty.told settler).metered.usage =
      TokenUsage.merge {} { empty.usage with outputTokensFinal := true } := rfl
  simp only [hm, hu, resolve_handed] at ha
  rw [StreamGuard.outcome, StreamGuard.bill?]
  simp only [hm]
  rw [ha]
  cases h : reportsInput empty.usage
  case false => simp
  case true =>
    have ⟨tokens, ht⟩ := Option.isSome_iff_exists.mp <|
      resolve_counted empty.usage settler.estimatedInputTokens
    simp [endedBefore, billEmptyAttempt, h, ht, told, StreamGuard.told, StreamGuard.start]

-- The end of a route after its answer has begun: as before it if the empty attempt's input was
-- reported and the stream gets to its end, and unbilled otherwise.
theorem endedAfter_empty (hd : Delivers (deferredAnswer (.error error) (some empty)) ms) :
    endedAfter cfg registry settler id ms e =
      if reportsInput empty.usage && reachesDone ms then
        endedBefore settler.estimatedInputTokens (some empty)
      else { settles := [], guard := [.released] } := by
  have hs : (StreamGuard.start settler).Silent := ⟨rfl, rfl, rfl⟩
  have ht (a) (ha : a ∈ [.served empty.providerId empty.targetModel,
      .usage { empty.usage with outputTokensFinal := true }, .stopReason "end_turn"]) :
      StreamGuard.Tells a := by
    simp only [List.mem_cons, List.not_mem_nil, or_false] at ha
    obtain rfl | rfl | rfl := ha
    · exact .served
    · exact .usage
    · exact .stopReason
  have ⟨hr, hn⟩ := StreamGuard.loop_told cfg registry ht hd hs
  cases hm : reachesDone ms
  case false =>
    have hn := hn hm
    rw [endedAfter_eq rfl hn.completed, StreamGuard.outcome, StreamGuard.bill?, hn.attempt]
    simp
  case true =>
    have ⟨sent, sends, h⟩ := hr hm
    have hc : ((StreamGuard.start settler).loop cfg registry ms).2.completed = false := by
      rw [h]
      exact congrArg (·.completed) <|
        done_empty (s := { empty.told settler with sent := sent }) rfl rfl
    rw [endedAfter_eq rfl hc, h, Bool.and_true]
    exact empty.outcome_done

omit [StreamHost] in
theorem endedBefore_released (estimated : Nat) :
    endedBefore estimated (some empty) = { settles := [], guard := [.released] } ↔
      reportsInput empty.usage = false ∧ empty.usage.completionTokens = 0 := by
  cases h : reportsInput empty.usage <;> by_cases hc : empty.usage.completionTokens = 0 <;>
    simp [endedBefore, billEmptyAttempt, resolve_empty, h, hc]

theorem ended_alike_iff (hd : Delivers (deferredAnswer (.error error) (some empty)) ms) :
    endedAfter cfg registry settler id ms e =
        endedBefore settler.estimatedInputTokens (some empty) ↔
      (reportsInput empty.usage ∧ reachesDone ms) ∨
        (¬reportsInput empty.usage ∧ empty.usage.completionTokens = 0) := by
  rw [empty.endedAfter_empty hd]
  have hb := eq_comm.trans <| empty.endedBefore_released settler.estimatedInputTokens
  cases h : reportsInput empty.usage <;> cases hm : reachesDone ms <;>
    simp [h, hb]

end EmptyAttempt

-- Events before the end of an answer with nothing in it that ends with an ordinary stop.
structure EmptyAnswer (events : List ProviderStreamEvent) (reason : String) : Prop where
  open_    : .done ∉ events
  silent   : ∀ a ∈ events, a.content = false
  few      : (events.filter (!·.passing)).length < 64
  metered  : (events.any (·.usage?.isSome))
  stopped  : (events.filterMap (·.stopReason?)).getLast? = some reason
  ordinary : isExplicitEmptyStop reason = false

namespace Trial

variable {t : Trial} {seen events : List ProviderStreamEvent} {slot : EmptyAttempts}
  {arrivals : List Arrived}

def empty (t : Trial) (events : List ProviderStreamEvent) : EmptyAttempt where
  providerId  := t.providerId
  targetModel := t.targetModel
  usage       := (events.filterMap (·.usage?)).foldl .merge {}

-- The upstream's events end as a metered answer with nothing in it.
def Ends (seen : List ProviderStreamEvent) (arrivals : List Arrived)
    (all : List ProviderStreamEvent) : Prop :=
  ∃ events rest reason, arrivals = events.map (.event <| .ok ·) ++ .event (.ok .done) :: rest ∧
    all = seen ++ events ∧ EmptyAnswer all reason

-- An attempt ended as a metered empty answer.
def MeteredEmpty (t : Trial) (e : EmptyAttempt) : Prop :=
  ∃ arrivals events, t.answer = .ok arrivals ∧ Ends [] arrivals events ∧ e = t.empty events

theorem ends_unfinished {a : Arrived} (ha : ∀ event, a ≠ .event (.ok event)) :
    ¬Ends seen (a :: arrivals) events := by
  rintro ⟨events, rest, reason, he, _⟩
  cases events
  case nil => exact ha _ (List.cons.inj he).left
  case cons => exact ha _ (List.cons.inj he).left

theorem ends_nil : ¬Ends seen [] events := by
  rintro ⟨events, rest, reason, he, _⟩
  cases events <;> cases he

theorem ends_done : Ends seen (.event (.ok .done) :: arrivals) events ↔
    events = seen ∧ ∃ reason, EmptyAnswer seen reason := by
  constructor
  case mp =>
    rintro ⟨es, rest, reason, he, rfl, hr⟩
    cases es
    case nil => exact ⟨List.append_nil _, reason, by simpa using hr⟩
    case cons a es =>
      have ⟨ha, _⟩ := List.cons.inj he
      injection ha with ha
      injection ha with ha
      exact (hr.open_ <| by simp [← ha]).elim
  case mpr =>
    rintro ⟨rfl, reason, hr⟩
    exact ⟨[], arrivals, reason, rfl, (List.append_nil _).symm, hr⟩

theorem ends_cons (ha : a ≠ .done) :
    Ends seen (.event (.ok a) :: arrivals) events ↔ Ends (seen ++ [a]) arrivals events := by
  constructor
  case mp =>
    rintro ⟨es, rest, reason, he, hs, hr⟩
    cases es
    case nil => simp [ha] at he
    case cons b es =>
      simp only [List.map_cons, List.cons_append, List.cons.injEq, Arrived.event.injEq,
        Except.ok.injEq] at he
      obtain ⟨rfl, he⟩ := he
      exact ⟨es, rest, reason, he, by simp [hs], hr⟩
  case mpr =>
    rintro ⟨es, rest, reason, he, hs, hr⟩
    exact ⟨a :: es, rest, reason, by simp [he], by simp [hs], hr⟩

theorem ends_seen (h : Ends seen arrivals events) :
    ∃ reason more, EmptyAnswer (seen ++ more) reason :=
  have ⟨more, _, reason, _, hs, hr⟩ := h
  ⟨reason, more, hs ▸ hr⟩

theorem passing_nothing {a : ProviderStreamEvent} (h : a.passing) :
    a.usage? = none ∧ a.stopReason? = none ∧ a.content = false := by
  cases a
  case heartbeat => exact ⟨rfl, rfl, rfl⟩
  case delta d => cases d <;> simp_all [ProviderStreamEvent.passing, ProviderStreamEvent.usage?,
    ProviderStreamEvent.stopReason?, ProviderStreamEvent.content]
  all_goals cases h

theorem usages_kept :
    (seen.filter (!·.passing)).filterMap (·.usage?) = seen.filterMap (·.usage?) := by
  induction seen
  case nil => rfl
  case cons a seen hi =>
    cases ha : a.passing
    case false => cases hu : a.usage? <;> simp [ha, hu, hi]
    case true => simpa [ha, List.filterMap_cons, (passing_nothing ha).left] using hi

-- What an attempt's loop that has `seen` events keeps of them.
def waiting (t : Trial) (slot : EmptyAttempts) (seen : List ProviderStreamEvent)
    (arrivals : List Arrived) : Primed × EmptyAttempts :=
  t.primeLoop slot (seen.filter (!·.passing)) (seen.filterMap (·.stopReason?)).getLast?
    (seen.any (·.usage?.isSome)) arrivals

theorem waiting_passing (h : a.passing) :
    t.waiting slot seen (.event (.ok a) :: arrivals) = t.waiting slot (seen ++ [a]) arrivals := by
  have ⟨hu, hr, _⟩ := passing_nothing h
  have hd : a ≠ .done := fun hd => by simp [hd, ProviderStreamEvent.passing] at h
  simp [waiting, primeLoop, hd, h, hu, hr]

theorem waiting_kept (hd : a ≠ .done) (hp : a.passing = false) (hc : a.content = false)
    (hl : (seen.filter (!·.passing)).length + 1 < 64) :
    t.waiting slot seen (.event (.ok a) :: arrivals) = t.waiting slot (seen ++ [a]) arrivals := by
  have hl : ¬64 ≤ (seen.filter (!·.passing)).length + 1 := by omega
  cases hr : a.stopReason? <;> simp [waiting, primeLoop, hd, hp, hc, hl, hr]

variable (t slot arrivals) in
theorem waiting_done (ho : .done ∉ seen) (hs : ∀ a ∈ seen, a.content = false)
    (hf : (seen.filter (!·.passing)).length < 64) :
    ((∃ reason, EmptyAnswer seen reason) ∧
      t.waiting slot seen (.event (.ok .done) :: arrivals) =
        (.error .emptyCompletion, slot.endedEmpty <| t.empty seen)) ∨
      ((¬∃ reason, EmptyAnswer seen reason) ∧
        (t.waiting slot seen (.event (.ok .done) :: arrivals)).2 = slot ∧
        (t.waiting slot seen (.event (.ok .done) :: arrivals)).1 ≠ .error .emptyCompletion) := by
  simp only [waiting, primeLoop, if_true]
  cases hr : (seen.filterMap (·.stopReason?)).getLast?
  case none =>
    exact .inr ⟨fun ⟨_, he⟩ => (nomatch he.stopped.symm.trans hr), rfl, nofun⟩
  case some reason =>
    have hn (he : ∃ reason, EmptyAnswer seen reason) : EmptyAnswer seen reason := by
      have ⟨reason', he⟩ := he
      have := Option.some.inj <| he.stopped.symm.trans hr
      exact this ▸ he
    cases hm : seen.any (·.usage?.isSome)
    case false =>
      refine .inr ⟨fun he => ?_, rfl, nofun⟩
      simp [(hn he).metered] at hm
    case true =>
      cases hx : isExplicitEmptyStop reason
      case false =>
        refine .inl ⟨⟨reason, ho, hs, hf, hm, hr, hx⟩, ?_⟩
        simp [usages_kept, empty, hx]
      case true =>
        refine .inr ⟨fun he => ?_, by simp [hx]⟩
        simp [(hn he).ordinary] at hx

theorem not_ends (h : ∀ more reason, ¬EmptyAnswer (seen ++ a :: more) reason) :
    ¬Ends (seen ++ [a]) arrivals events := by
  intro he
  have ⟨reason, more, he⟩ := ends_seen he
  exact h more reason <| by simpa using he

variable (t slot arrivals) in
-- How an attempt's loop ends that has only seen what leaves it waiting.
theorem waiting_ends (ho : .done ∉ seen) (hs : ∀ a ∈ seen, a.content = false)
    (hf : (seen.filter (!·.passing)).length < 64) :
    (∃ events, Ends seen arrivals events ∧
        t.waiting slot seen arrivals =
          (.error .emptyCompletion, slot.endedEmpty <| t.empty events)) ∨
      ((∀ events, ¬Ends seen arrivals events) ∧ (t.waiting slot seen arrivals).2 = slot ∧
        (t.waiting slot seen arrivals).1 ≠ .error .emptyCompletion) := by
  induction arrivals generalizing seen
  case nil => exact .inr ⟨fun _ => ends_nil, rfl, nofun⟩
  case cons arrived arrivals hi =>
    cases arrived
    case late => exact .inr ⟨fun _ => ends_unfinished nofun, rfl, nofun⟩
    case ended => exact .inr ⟨fun _ => ends_unfinished nofun, rfl, nofun⟩
    case event e =>
      cases e
      case error e =>
        exact .inr ⟨fun _ => ends_unfinished nofun, rfl, fun h => e.property (Except.error.inj h)⟩
      case ok a =>
        by_cases ha : a = .done
        case pos =>
          subst ha
          simp only [ends_done]
          obtain ⟨he, h⟩ | ⟨he, h⟩ := waiting_done t slot arrivals ho hs hf
          · exact .inl ⟨seen, ⟨rfl, he⟩, h⟩
          · exact .inr ⟨fun _ hn => he hn.right, h⟩
        case neg =>
          simp only [ends_cons ha]
          have ho : .done ∉ seen ++ [a] := by simp [ho, Ne.symm ha]
          cases hp : a.passing
          case true =>
            have ⟨_, _, hc⟩ := passing_nothing hp
            rw [waiting_passing hp]
            apply hi ho
            case hs => simpa [or_imp, forall_and, hc] using hs
            case hf => simpa [hp] using hf
          case false =>
            cases hc : a.content
            case true =>
              refine .inr ⟨fun _ => not_ends fun more reason he => ?_, ?_⟩
              case refine_1 => simpa [hc] using he.silent a (by simp)
              case refine_2 => simp [waiting, primeLoop, ha, hp, hc]
            case false =>
              by_cases hl : 64 ≤ (seen.filter (!·.passing)).length + 1
              case pos =>
                refine .inr ⟨fun _ => not_ends fun more reason he => ?_, ?_⟩
                case refine_1 =>
                  have := he.few
                  simp [hp] at this
                  omega
                case refine_2 => simp [waiting, primeLoop, ha, hp, hc, hl]
              case neg =>
                rw [waiting_kept ha hp hc (by omega)]
                apply hi ho
                case hs => simpa [or_imp, forall_and, hc] using hs
                case hf => simp [hp]; omega

theorem Ends.unique (h : Ends seen arrivals events) (h' : Ends seen arrivals events') :
    events = events' := by
  induction arrivals generalizing seen
  case nil => exact (ends_nil h).elim
  case cons arrived arrivals hi =>
    by_cases hn : ∃ a, arrived = .event (.ok a)
    case neg => exact (ends_unfinished (not_exists.mp hn) h).elim
    case pos =>
      obtain ⟨a, rfl⟩ := hn
      by_cases ha : a = .done
      case pos =>
        subst ha
        exact (ends_done.mp h).left.trans (ends_done.mp h').left.symm
      case neg => exact hi ((ends_cons ha).mp h) ((ends_cons ha).mp h')

theorem MeteredEmpty.unique (h : t.MeteredEmpty e) (h' : t.MeteredEmpty e') : e = e' := by
  have ⟨arrivals, events, ha, hs, he⟩ := h
  have ⟨arrivals', events', ha', hs', he'⟩ := h'
  have hw : arrivals = arrivals' := Except.ok.inj <| ha.symm.trans ha'
  subst hw
  rw [he, he', hs.unique hs']

variable (t slot) in
theorem prime_ends :
    (∃ e, t.MeteredEmpty e ∧ t.prime slot = (.error .emptyCompletion, slot.endedEmpty e)) ∨
      ((∀ e, ¬t.MeteredEmpty e) ∧ (t.prime slot).2 = slot ∧
        (t.prime slot).1 ≠ .error .emptyCompletion) := by
  unfold prime MeteredEmpty
  cases ha : t.answer
  case error e =>
    exact .inr ⟨fun _ ⟨_, _, h, _⟩ => (nomatch h), rfl, fun h => e.property (Except.error.inj h)⟩
  case ok arrivals =>
    have ho : ProviderStreamEvent.done ∉ [] := nofun
    have hw := waiting_ends t slot arrivals ho nofun (by decide)
    obtain ⟨events, he, hw⟩ | ⟨hn, hw⟩ := hw
    case inl => exact .inl ⟨_, ⟨arrivals, events, rfl, he, rfl⟩, hw⟩
    case inr =>
      refine .inr ⟨?_, hw⟩
      rintro _ ⟨_, events, h, he, _⟩
      injection h with h
      exact hn events <| h ▸ he

end Trial

namespace Route

variable {r : Route} {c : Start} {t : Trial} {slot : EmptyAttempts} {tried : List Trial}

-- The attempt a route keeps is the last one, as long as every attempt ended as a metered empty
-- answer.
structure Kept (r : Route) : Prop where
  other : r.slot.otherFailure ↔ ∃ t ∈ r.tried, ∀ e, ¬t.MeteredEmpty e
  last  : ∀ e, r.slot.last = some e ↔
    (∀ t ∈ r.tried, ∃ e, t.MeteredEmpty e) ∧ ∃ t, r.tried.getLast? = some t ∧ t.MeteredEmpty e

theorem Kept.start : Kept {} where
  other := by simp
  last  := by simp

theorem Kept.empty (h : r.Kept) (he : t.MeteredEmpty e) :
    Kept { slot := r.slot.endedEmpty e, tried := r.tried ++ [t] } := by
  have hu (e') : t.MeteredEmpty e' ↔ e = e' := ⟨he.unique, (· ▸ he)⟩
  have hn : (∃ t' ∈ r.tried ++ [t], ∀ e, ¬t'.MeteredEmpty e) ↔ r.slot.otherFailure := by
    simp [h.other, or_and_right, exists_or, hu]
  have ha : (∀ t' ∈ r.tried ++ [t], ∃ e, t'.MeteredEmpty e) ↔ r.slot.otherFailure = false := by
    rw [← Bool.not_eq_true, ← hn]
    push Not
    rfl
  constructor
  case other =>
    rw [hn]
    unfold EmptyAttempts.endedEmpty
    split <;> rfl
  case last =>
    intro e'
    rw [ha]
    cases ho : r.slot.otherFailure
    case false => simp [EmptyAttempts.endedEmpty, ho, hu]
    case true =>
      have hl : r.slot.last ≠ some e' := fun hl => by
        have ⟨h', _⟩ := (h.last e').mp hl
        have ⟨t', ht, hf⟩ := h.other.mp ho
        have ⟨e, he⟩ := h' t' ht
        exact hf e he
      simp [EmptyAttempts.endedEmpty, ho, hl]

theorem kept_failed (he : ∀ e, ¬t.MeteredEmpty e) :
    Kept { slot := slot.failedOtherwise, tried := tried ++ [t] } where
  other := by simp [EmptyAttempts.failedOtherwise, he, or_and_right, exists_or]
  last := by simp [EmptyAttempts.failedOtherwise, he, or_imp, forall_and]

-- What a route has kept after attempts that led to `result`.
def Leads (result : Primed × Route) : Prop :=
  match result with
  | (.ok _, r)    => ∃ t ∈ r.tried, ∀ e, ¬t.MeteredEmpty e
  | (.error _, r) => r.Kept

theorem prime_leads (h : r.Kept) :
    match r.prime t with
    | (.ok _, r)        => ∃ t ∈ r.tried, ∀ e, ¬t.MeteredEmpty e
    | (.error error, r) =>
      Kept (if error = .emptyCompletion then r else { r with slot := r.slot.failedOtherwise }) := by
  unfold prime
  obtain ⟨e, he, hp⟩ | ⟨he, hs, hn⟩ := t.prime_ends r.slot
  case inl => simpa [hp] using h.empty he
  case inr =>
    cases hp : t.prime r.slot with | mk result slot
    cases result
    case ok => exact ⟨t, by simp, he⟩
    case error error =>
      have hn : error ≠ .emptyCompletion := by simpa [hp] using hn
      simpa [hn] using kept_failed he

theorem startFrom_leads (h : r.Kept) : Leads (startFrom c i left r) := by
  induction left generalizing i r
  case zero =>
    have hp := prime_leads (t := ⟨c.providerId, c.targetModel, c.answers i⟩) h
    unfold startFrom
    split
    case h_1 hr => simpa [Leads, hr] using hp
    case h_2 hr => simpa [Leads, hr] using hp
  case succ left hi =>
    have hp := prime_leads (t := ⟨c.providerId, c.targetModel, c.answers i⟩) h
    unfold startFrom
    split
    case h_1 hr => simpa [Leads, hr] using hp
    case h_2 hr =>
      rw [hr] at hp
      extract_lets r'
      dsimp only
      split
      case isTrue => exact hp
      case isFalse => exact hi hp

theorem chain_leads (cs : List Start) (h : r.Kept) :
    match chain cs r with
    | (some _, r) => ∃ t ∈ r.tried, ∀ e, ¬t.MeteredEmpty e
    | (none, r)   => r.Kept := by
  induction cs generalizing r
  case nil => exact h
  case cons c cs hi =>
    have hs : Leads (startStream c r) := startFrom_leads h
    rw [chain]
    cases hr : startStream c r with | mk result r'
    rw [hr] at hs
    cases result
    case ok    => exact hs
    case error => exact hi hs

end Route

-- A route reports an empty attempt to bill exactly if every attempt ended as a metered empty
-- answer, and it's the last one.
theorem reportedEmpty_iff {route : List Start} :
    reportedEmpty route = some e ↔
      (∀ t ∈ (Route.chain route {}).2.tried, ∃ e, t.MeteredEmpty e) ∧
        ∃ t, (Route.chain route {}).2.tried.getLast? = some t ∧ t.MeteredEmpty e := by
  have h := Route.chain_leads route .start
  unfold reportedEmpty withEmptyAttempt
  cases hr : Route.chain route {} with | mk result r
  rw [hr] at h
  cases result
  case none => exact h.last e
  case some =>
    have ⟨t, ht, hn⟩ := h
    constructor
    case mp => exact nofun
    case mpr =>
      rintro ⟨h, _⟩
      have ⟨e, he⟩ := h t ht
      exact (hn e he).elim

-- An empty attempt is billed alike before and after the answer began exactly if its input was
-- reported and the stream gets to its end, or if it reports no tokens at all. A route reports one
-- to bill exactly if every attempt ended so.
theorem empty_billed_alike [StreamHost] (cfg : StreamGuardConfig)
    (registry : Option Translate.ToolRegistry) (settler : BillingSettler) (id : String)
    (empty : EmptyAttempt) (error : KiroError) (ms : List Awake) (e : StreamGuard.Ending)
    (route : List Start) (reported : EmptyAttempt)
    (hd : Delivers (deferredAnswer (.error error) (some empty)) ms) :
    (endedAfter cfg registry settler id ms e =
        endedBefore settler.estimatedInputTokens (some empty) ↔
      (reportsInput empty.usage ∧ reachesDone ms) ∨
        (¬reportsInput empty.usage ∧ empty.usage.completionTokens = 0)) ∧
      (reportedEmpty route = some reported ↔
        (∀ t ∈ (Route.chain route {}).2.tried, ∃ e, t.MeteredEmpty e) ∧
          ∃ t, (Route.chain route {}).2.tried.getLast? = some t ∧ t.MeteredEmpty reported) :=
  ⟨empty.ended_alike_iff hd, reportedEmpty_iff⟩

@[reducible]
def sampleHost : StreamHost where
  wholeJson _      := true
  replayThinking _ := false

def sampleEmpty (usage : TokenUsage) : EmptyAttempt where
  providerId  := "p"
  targetModel := "m"
  usage       := usage

def sampleError : KiroError where
  status    := 502
  exception := "InternalServerException"
  message   := ""

-- All of an empty attempt is handed on, and all that's sent arrives.
def sampleWakes (empty : EmptyAttempt) : List Awake :=
  (deferredAnswer (.error sampleError) (some empty)).map fun e => ⟨.event (some e), fun _ => true⟩

def sampleEnding : StreamGuard.Ending where
  closed           := false
  settled _        := .ok 0
  closedAtMetering := false
  meteringSent     := true
  closedAtStop     := false
  stopSent         := true
  exceptionSent    := true
  now              := 0

def sampleEmptyAnswer (usage : TokenUsage) : Outcome :=
  @endedAfter sampleHost { contextWindow := 1000 } none ⟨"p", "m", 7⟩ "i"
    (sampleWakes (sampleEmpty usage)) sampleEnding

def sampleRoute : List Start :=
  [{ providerId  := "p"
     targetModel := "m"
     maxAttempts := 3
     answers _   := .ok [.event <| .ok <| .usage { promptTokens := 3, uncachedPromptTokens := 3 },
       .event <| .ok <| .stopReason "stop", .event <| .ok .done]
     late _      := false }]

-- A report of output alone is billed before the answer has begun, and isn't after.
theorem empty_billed_once_begun :
    let usage : TokenUsage := { completionTokens := 5 }
    Delivers (deferredAnswer (.error sampleError) (some (sampleEmpty usage)))
      (sampleWakes (sampleEmpty usage)) ∧
      reachesDone (sampleWakes (sampleEmpty usage)) ∧
      endedBefore 7 (some (sampleEmpty usage)) =
        { settles := [⟨{ uncachedInputTokens := 7, outputTokens := 5 }, "p", "m"⟩]
          guard   := [.failed] } ∧
      sampleEmptyAnswer usage = { settles := [], guard := [.released] } :=
  ⟨rfl, by decide, by decide, by decide⟩

theorem empty_billed_alike_sample :
    let empty := sampleEmpty { promptTokens := 3, uncachedPromptTokens := 3 }
    @endedAfter sampleHost { contextWindow := 1000 } none ⟨"p", "m", 7⟩ "i" (sampleWakes empty)
        sampleEnding = endedBefore 7 (some empty) ∧
      (reportedEmpty sampleRoute = some empty ↔
        (∀ t ∈ (Route.chain sampleRoute {}).2.tried, ∃ e, t.MeteredEmpty e) ∧
          ∃ t, (Route.chain sampleRoute {}).2.tried.getLast? = some t ∧ t.MeteredEmpty empty) := by
  intro empty
  have ⟨h, hr⟩ := @empty_billed_alike sampleHost { contextWindow := 1000 } none ⟨"p", "m", 7⟩ "i"
    empty sampleError (sampleWakes empty) sampleEnding sampleRoute empty rfl
  exact ⟨h.mpr <| .inl ⟨by decide, by decide⟩, hr⟩

end Gateway
