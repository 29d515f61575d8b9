import Superkiro.Gateway.Invocations
import Superkiro.Billing.Error
import Superkiro.Stream.Tools

namespace Gateway

open Billing

-- Why a response ends before it's complete, as Kiro is told at its end.
structure Failure where
  error          : String
  exception      : String := "InternalServerException"
  reason         : Option String := none
  retryAfterSecs : Option Nat := none

namespace Failure

-- An ending a retry would meet again.
def shown (message : String) : Failure where
  error     := message
  exception := "ValidationException"

def told (e : KiroError) : Failure where
  error          := e.message
  exception      := e.exception
  reason         := e.reason
  retryAfterSecs := e.retryAfterSecs

def deadline : Failure :=
  .shown "响应超过了网关的时间上限，已被截断。可以让模型从中断处继续，或把任务拆小后重试。"

def restarting : Failure := { error := "The gateway is restarting; the response was cut off" }

def oversizedToolCall (what : String) : Failure :=
  .shown <| "模型生成的工具调用超出了网关的上限（" ++ what ++
    "），本次响应已中止。可以让模型分几步完成，或把任务拆小后重试。"

def frame (f : Failure) : Frame :=
  .exception f.exception f.error f.reason (f.retryAfterSecs.map fun s => min (s * 1000) u64Max)

end Failure

def maxToolCalls : Nat := 128

def emptyAnswerBilled : String :=
  "上游模型每次都返回了空回答，已按它读取的输入计费一次。请重新发送，或换一个模型。"

def mapStopReason (reason : String) : String :=
  if reason = "stop" then "end_turn"
  else if reason ∈ ["tool_calls", "tool_use"] then "tool_use"
  else if reason ∈ ["length", "max_tokens", "model_context_window_exceeded"] then "max_tokens"
  else if reason ∈ ["refusal", "content_filter"] then "content_filtered"
  else reason

-- What is shown when a turn ends without an answer.
def emptyTurnNotice (stopReason : Option String) : Option String :=
  if stopReason = some "max_tokens" then
    some "（模型在给出可见回答前已达到输出上限。请重试，或缩短本次请求。）"
  else none

-- Whether a stop reason makes a response without output final.
def endsEmptyTurn (stopReason : String) : Bool := stopReason ∈ ["max_tokens", "content_filtered"]

-- What an upstream's error is told as.
def safeProviderError : ProviderError → String
  | .http status _           => s!"upstream HTTP status {status}"
  | .network _               => "upstream network error"
  | .timeout                 => "upstream request timed out"
  | .noAnswer                => "upstream did not answer"
  | .streamDisconnected      => "upstream stream disconnected"
  | .parse _                 => "upstream response parse error"
  | .unavailable             => "upstream reported a temporary failure"
  | .serialization _         => "upstream request serialization error"
  | .watchdog _              => "upstream watchdog timeout"
  | .emptyCompletion         => "upstream completed without producing any output"
  | .thinkingNeedsOutput _ _ => "the model's output limit leaves no room for thinking"

structure StreamGuardConfig where
  modelId       : String := "default-model"
  contextWindow : Nat

-- What settling a stream depends on.
structure BillingSettler where
  providerId           : String
  targetModel          : String
  estimatedInputTokens : Nat := 0

-- What a stream was told of, and how its turn ended.
structure Heard where
  metered     : Metered := {}
  outputUnits : Nat := 0
  sawOutput   : Bool := false
  completed   : Bool := false
  emptyTurn   : Bool := false
  stopReason  : Option String := none

structure StreamGuard extends Heard where
  toolCalls         : ToolCalls := {}
  toolArgumentBytes : Nat := 0
  failure           : Option Failure := none
  sawUsageFrame     : Bool := false
  answerUnits       : Nat := 0
  sawAnswer         : Bool := false
  rejectedEmpty     : Bool := false
  refusal           : Option (Option String × Option String) := none
  signingModel      : Option String := none
  settler           : Option BillingSettler := none
  -- What Kiro was sent.
  sent              : List Frame := []

-- What the loop wakes up to.
inductive Wake
  | closed
  | deadline
  | stopping
  | tick
  | event (e : Option (Except ProviderError ProviderStreamEvent))

-- A turn of the loop, and which of the frames it sends can be sent.
structure Awake where
  wake  : Wake
  sends : Nat → Bool := fun _ => true

namespace StreamGuard

-- Sends frames until one can't be sent. The rest are only sent where all before them were.
def send (s : StreamGuard) (sends : Nat → Bool) (frames : List Frame) : Bool × StreamGuard :=
  let sent := (frames.zipIdx.takeWhile fun (_, i) => sends i).map (·.1)
  (sent.length = frames.length, { s with sent := s.sent ++ sent })

-- More output, which may be an answer.
def outputs (s : StreamGuard) (some_ answers : Bool) (units : Nat) : StreamGuard :=
  { s with
    sawOutput   := s.sawOutput || some_
    sawAnswer   := s.sawAnswer || (some_ && answers)
    outputUnits := satAddU64 s.outputUnits units
    answerUnits := if answers then satAddU64 s.answerUnits units else s.answerUnits }

def fail (s : StreamGuard) (f : Failure) : Bool × StreamGuard := (false, { s with failure := some f })

variable [StreamHost] (cfg : StreamGuardConfig) (registry : Option Translate.ToolRegistry)

-- A fragment of a call is added to it. The call is opened where it's new.
def addFragment (s : StreamGuard) (position index : Option Nat) (id name : Option String)
    (arguments : String) : Nat × StreamGuard :=
  let calls := if position.isNone then s.toolCalls.opened index else s.toolCalls
  let position := position.getD s.toolCalls.calls.length
  let calls := { calls with byId := match id with
    | some id => calls.byId.orInsert id position
    | none    => calls.byId }
  let calls := calls.update position fun c => { c with
    id        := id.getD c.id
    name      := name.getD c.name
    arguments := c.arguments ++ arguments }
  (position, { s with toolCalls := calls })

def toolCallChunk (s : StreamGuard) (sends : Nat → Bool) (index : Option Nat)
    (id name : Option String) (arguments : String) : Bool × StreamGuard :=
  -- An empty id or name names nothing.
  let id := id.filter (· ≠ "")
  let name := (name.filter (· ≠ "")).map fun name =>
    match registry with
    | some r => r.restore name
    | none   => name
  let position := s.toolCalls.find index id
  if s.toolCalls.addsNothing position id name arguments then (true, s)
  else
    let units := satAddU64 (tokenUnits arguments) ((name.map tokenUnits).getD 0)
    let s := s.outputs (arguments ≠ "" || id.isSome || name.isSome) true units
    if position.isNone && maxToolCalls ≤ s.toolCalls.calls.length then
      s.fail (.oversizedToolCall s!"一次最多 {maxToolCalls} 个调用")
    else
      let s := { s with toolArgumentBytes := satAddU64 s.toolArgumentBytes (Text.len arguments) }
      if maxToolArgumentBytes < s.toolArgumentBytes then
        s.fail (.oversizedToolCall s!"参数合计最多 {maxToolArgumentBytes / (1024 * 1024)} MB")
      else
        let (position, s) := s.addFragment position index id name arguments
        match s.toolCalls.advance position with
        | some (frames, calls) => { s with toolCalls := calls }.send sends frames
        | none                 =>
          s.fail { error := "Upstream continued a tool call after starting the next one" }

def delta (s : StreamGuard) (sends : Nat → Bool) : ProviderDelta → Bool × StreamGuard
  | .text text                    =>
    (s.outputs (text ≠ "") true (tokenUnits text)).send sends [.assistantResponse text cfg.modelId]
  | .reasoning text               =>
    (s.outputs (text ≠ "") false (tokenUnits text)).send sends [.reasoning (some text) none]
  | .reasoningSignature signature =>
    let signature :=
      match s.signingModel with
      | some model => model ++ "#" ++ signature
      | none       => signature
    s.send sends [.reasoning none (some signature)]
  | .toolCallChunk index id name arguments => s.toolCallChunk registry sends index id name arguments

def usage (s : StreamGuard) (sends : Nat → Bool) (next : TokenUsage) : Bool × StreamGuard :=
  let s := { s with sawUsageFrame := true, metered := s.metered.observe next }
  let u := s.metered.usage
  let thinkingResent := s.settler.any fun settler => StreamHost.replayThinking settler.providerId
  let resent := if thinkingResent then s.outputUnits else s.answerUnits
  let estimated := (s.settler.map (·.estimatedInputTokens)).getD 0
  let tokens := satAddU64 (max u.promptTokens estimated) (tokensFromUnits resent)
  let i64 (n : Nat) := min n 9223372036854775807
  s.send sends [
    .metadata (i64 u.uncachedPromptTokens) (i64 u.completionTokens) (i64 u.cacheRead)
      (i64 u.cacheCreation),
    .contextUsage tokens cfg.contextWindow]

-- The end of a turn in which the model said nothing, or nothing but its thoughts.
def notice (s : StreamGuard) (sends : Nat → Bool) : Bool × StreamGuard :=
  match emptyTurnNotice s.stopReason with
  | some text => s.send sends [.assistantResponse text cfg.modelId]
  | none      => (true, s)

def complete (s : StreamGuard) : Bool × StreamGuard := (false, { s with completed := true })

def done (s : StreamGuard) (sends : Nat → Bool) : Bool × StreamGuard :=
  if !s.sawOutput && s.sawUsageFrame && s.stopReason.any endsEmptyTurn then
    match s.notice cfg sends with
    | (true, s)  => s.complete
    | (false, s) => (false, s)
  else if !s.sawOutput then
    let f : Failure :=
      if s.metered.hasInputUsage && s.stopReason.isSome then .shown emptyAnswerBilled
      else { error := "Upstream completed without producing any output" }
    { s with rejectedEmpty := !s.metered.hasInputUsage, emptyTurn := true }.fail f
  else
    match if s.sawAnswer then (true, s) else s.notice cfg sends with
    | (false, s) => (false, s)
    | (true, s)  =>
      -- The notice comes first.
      match s.send (fun i => sends (i + 1)) s.toolCalls.finish with
      | (true, s)  => s.complete
      | (false, s) => (false, s)

def event (s : StreamGuard) (sends : Nat → Bool) :
    Option (Except ProviderError ProviderStreamEvent) → Bool × StreamGuard
  | some (.ok (.delta d))                       => s.delta cfg registry sends d
  | some (.ok .started)                         => (true, s)
  | some (.ok .heartbeat)                       => (true, s)
  | some (.ok (.served providerId targetModel)) =>
    let settler := s.settler.map fun settler =>
      { settler with providerId := providerId, targetModel := targetModel }
    (true, { s with settler := settler, signingModel := settler.map (·.targetModel) })
  | some (.ok (.failed error))                  => s.fail (.told error)
  | some (.ok (.refusal category explanation))  =>
    (true, { s with refusal := some (category, explanation) })
  | some (.ok (.usage next))                    => s.usage cfg sends next
  | some (.ok (.stopReason reason))             =>
    (true, { s with stopReason := some (mapStopReason reason) })
  | some (.ok .done)                            => s.done cfg sends
  | some (.error e)                             => s.fail { error := safeProviderError e }
  | none                                        =>
    s.fail { error := "Upstream stream ended before completion" }

-- A turn of the loop, and whether the loop goes on.
def turn (s : StreamGuard) (m : Awake) : Bool × StreamGuard :=
  match m.wake with
  | .closed   => (false, s)
  | .deadline => (false, s)
  | .stopping => s.fail .restarting
  | .tick     => s.send m.sends [.keepalive]
  | .event e  => s.event cfg registry m.sends e

-- The turns until the loop ends, and what they lead to. The stream ends after the last turn.
def loop (s : StreamGuard) : List Awake → List Awake × StreamGuard
  | []      => ([], (s.turn cfg registry ⟨.event none, fun _ => true⟩).2)
  | m :: ms =>
    match s.turn cfg registry m with
    | (true, s)  => (m :: (s.loop ms).1, (s.loop ms).2)
    | (false, s) => ([m], s)

-- What the end of a stream meets with: whether the client is gone by then, what settling it comes
-- to, and which frames can be sent.
structure Ending where
  closed           : Bool
  settled          : UsageTokens → Except BillingError I64
  closedAtMetering : Bool
  meteringSent     : Bool
  closedAtStop     : Bool
  stopSent         : Bool
  exceptionSent    : Bool
  now              : Nat

-- What a stream does to the outside. An invocation's guard is committed, failed or released.
inductive Effect
  | sent (f : Frame)
  | settled (tokens : UsageTokens)
  | committed (id : String) (record : CompletedInvocation)
  | failed (id : String)
  | released (id : String)

def tokens (s : StreamGuard) (settler : BillingSettler) : Option UsageTokens :=
  resolveSettlementTokens s.metered.usage s.metered.hasInputUsage s.outputUnits s.sawOutput
    settler.estimatedInputTokens

def billable (s : StreamGuard) : Bool :=
  s.sawOutput || s.completed || (s.emptyTurn && s.stopReason.isSome)

-- What is settled, if anything.
def attempt (s : StreamGuard) : Option UsageTokens :=
  s.settler.bind fun settler => (s.tokens settler).filter fun _ => s.billable && !s.rejectedEmpty

def stopFrame (s : StreamGuard) : Frame :=
  let stop := s.stopReason.getD "end_turn"
  .stop stop (s.refusal.filter fun _ => stop = "content_filtered")

def record (s : StreamGuard) (now : Nat) : CompletedInvocation where
  completedAt       := now
  modelId           := cfg.modelId
  totalInputTokens  := min s.metered.usage.promptTokens 4294967295
  totalOutputTokens := min s.metered.usage.completionTokens 4294967295

def settlementFailed : Failure where
  error := "Billing settlement failed; request retained for reconciliation"

-- The one way a stream ends, however its loop did.
def finalize (s : StreamGuard) (guard : Option String) (e : Ending) : List Effect :=
  let failure :=
    if !s.completed && s.failure.isNone && !e.closed then some .deadline else s.failure
  let answer := s.attempt.map e.settled
  let settlementOk := answer.all (·.isOk)
  let settled := (s.attempt.map Effect.settled).toList
  if s.completed && settlementOk then
    let charged := (answer.bind (·.toOption)).filter fun _ => !e.closedAtMetering && e.meteringSent
    let stopSent := !e.closedAtStop && e.stopSent
    let ended := guard.map fun id =>
      if stopSent then Effect.committed id (s.record cfg e.now)
      else if s.attempt.isSome then .failed id
      else .released id
    settled ++ (charged.map fun c => .sent (.metering c)).toList ++
      (if stopSent then [.sent s.stopFrame] else []) ++ ended.toList
  else
    -- The outcome is recorded before a client that may be slow to read is told.
    let ended := guard.map fun id =>
      if s.attempt.isSome then Effect.failed id else .released id
    let failure := failure <|> if settlementOk then none else some settlementFailed
    settled ++ ended.toList ++
      ((failure.filter fun _ => e.exceptionSent).map fun f => .sent f.frame).toList

def start (settler : Option BillingSettler) : StreamGuard where
  settler      := settler
  signingModel := settler.map (·.targetModel)

end StreamGuard

-- What a stream does for what its loop wakes up to.
def createStreamGuard [StreamHost] (cfg : StreamGuardConfig)
    (registry : Option Translate.ToolRegistry) (settler : Option BillingSettler)
    (guard : Option String) (ms : List Awake) (e : StreamGuard.Ending) : List StreamGuard.Effect :=
  let s := ((StreamGuard.start settler).loop cfg registry ms).2
  s.sent.map .sent ++ s.finalize cfg guard e

end Gateway
