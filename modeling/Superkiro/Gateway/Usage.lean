import Superkiro.Lib.Json
import Superkiro.Billing.Ledger

namespace Gateway

open Billing

structure TokenUsage where
  uncachedPromptTokens     : Nat := 0
  promptTokens             : Nat := 0
  completionTokens         : Nat := 0
  totalTokens              : Nat := 0
  -- True only for a final completion-usage report.
  outputTokensFinal        : Bool := false
  -- True for a completion report that restates the prompt.
  promptFinal              : Bool := false
  cacheReadInputTokens     : Option Nat := none
  cacheCreationInputTokens : Option Nat := none
  deriving DecidableEq

namespace TokenUsage

def cacheRead (u : TokenUsage) : Nat := u.cacheReadInputTokens.getD 0

def cacheCreation (u : TokenUsage) : Nat := u.cacheCreationInputTokens.getD 0

-- The prompt counts after `other`. A final restatement replaces them, and they stand once
-- restated; before that, each count is the largest one reported.
def mergePrompt (self other : TokenUsage) : TokenUsage :=
  if other.promptFinal then
    let read := other.cacheReadInputTokens.or self.cacheReadInputTokens
    let creation := other.cacheCreationInputTokens.or self.cacheCreationInputTokens
    { self with
      uncachedPromptTokens     := other.uncachedPromptTokens
      cacheReadInputTokens     := read
      cacheCreationInputTokens := creation
      promptTokens             :=
        satAddU64 (satAddU64 other.uncachedPromptTokens (read.getD 0)) (creation.getD 0)
      promptFinal              := true }
  else if !self.promptFinal then
    { self with
      uncachedPromptTokens     := max self.uncachedPromptTokens other.uncachedPromptTokens
      promptTokens             := max self.promptTokens other.promptTokens
      cacheReadInputTokens     := max self.cacheReadInputTokens other.cacheReadInputTokens
      cacheCreationInputTokens :=
        max self.cacheCreationInputTokens other.cacheCreationInputTokens }
  else self

def merge (self other : TokenUsage) : TokenUsage :=
  let merged := self.mergePrompt other
  let completion := max self.completionTokens other.completionTokens
  { merged with
    completionTokens  := completion
    outputTokensFinal := self.outputTokensFinal || other.outputTokensFinal
    totalTokens       := satAddU64 merged.promptTokens completion }

end TokenUsage

-- Whether a usage report counts the input.
def reportsInput (usage : TokenUsage) : Bool :=
  0 < usage.promptTokens || 0 < usage.uncachedPromptTokens ||
    usage.cacheReadInputTokens.any (0 < ·) || usage.cacheCreationInputTokens.any (0 < ·)

def isAsciiPunctuation (c : Char) : Bool :=
  let n := c.toNat
  (33 ≤ n && n ≤ 47) || (58 ≤ n && n ≤ 64) || (91 ≤ n && n ≤ 96) || (123 ≤ n && n ≤ 126)

-- Characters that are about a token each.
def isWide (c : Char) : Bool :=
  let n := c.toNat
  (0x1100 ≤ n && n ≤ 0x11ff) || (0x2e80 ≤ n && n ≤ 0x9fff) || (0xac00 ≤ n && n ≤ 0xd7af) ||
  (0xf900 ≤ n && n ≤ 0xfaff) || (0xfe30 ≤ n && n ≤ 0xfe4f) || (0xff00 ≤ n && n ≤ 0xffef) ||
  (0x20000 ≤ n && n ≤ 0x3ffff)

-- Quarter tokens for characters after a run of punctuation.
def charUnits (run : Nat) : List Char → Nat
  | []      => 0
  | c :: cs =>
    if isAsciiPunctuation c then (if run % 4 = 0 then 4 else 0) + charUnits (run + 1) cs
    else (if c.toNat ≤ 0x7f then 1 else if isWide c then 4 else 2) + charUnits 0 cs

-- The size of a text in quarter tokens.
def tokenUnits (text : String) : Nat := charUnits 0 text.toList

-- Whole tokens for a unit count, rounded up.
def tokensFromUnits (units : Nat) : Nat := (units + 3) / 4

def resolveSettlementTokens (usage : TokenUsage) (hasInputUsage : Bool) (outputUnits : Nat)
    (sawOutput : Bool) (estimatedInput : Nat) : Option UsageTokens :=
  if !hasInputUsage && !sawOutput && usage.completionTokens == 0 then none
  else
    let streamed := if sawOutput then max (tokensFromUnits outputUnits) 1 else 0
    let output :=
      -- A report below half of what was streamed is wrong.
      if usage.outputTokensFinal && streamed ≤ min (usage.completionTokens * 2) u64Max then
        usage.completionTokens
      else max usage.completionTokens streamed
    some {
      uncachedInputTokens :=
        if hasInputUsage then usage.uncachedPromptTokens else max estimatedInput 1
      outputTokens        := output
      cacheCreationTokens := usage.cacheCreation
      cacheReadTokens     := usage.cacheRead }

-- What a stream keeps of the usage reports it has seen.
structure Metered where
  usage         : TokenUsage := {}
  hasInputUsage : Bool := false

def Metered.observe (m : Metered) (next : TokenUsage) : Metered where
  usage         := m.usage.merge next
  hasInputUsage := m.hasInputUsage || reportsInput next

def metered (reports : List TokenUsage) : Metered := reports.foldl Metered.observe {}

-- An event that is an upstream's error carries no usage.
def isErrorEvent (val : Json) : Bool :=
  (val.get? "error").any (!·.isNull) || (val.get? "type").bind Json.asStr? == some "error"

namespace OpenAiProvider

def extractUsage (value : Json) : Option TokenUsage := do
  let usage ← value.get? "usage"
  let prompt ← (← usage.get? "prompt_tokens").asU64?
  let completion ← (← usage.get? "completion_tokens").asU64?
  let total := ((usage.get? "total_tokens").bind Json.asU64?).getD (satAddU64 prompt completion)
  let cached :=
    ((usage.get? "prompt_tokens_details").bind (·.get? "cached_tokens")).bind Json.asU64?
  return {
    uncachedPromptTokens := prompt - cached.getD 0
    promptTokens         := prompt
    completionTokens     := completion
    totalTokens          := total
    outputTokensFinal    := true
    cacheReadInputTokens := cached }

-- The usage event of one stream line.
def streamUsage (val : Json) : Option TokenUsage :=
  if isErrorEvent val then none else extractUsage val

end OpenAiProvider

namespace AnthropicProvider

def extractUsage (value : Json) : Option TokenUsage := do
  let usage ← value.get? "usage"
  let input := ((usage.get? "input_tokens").bind Json.asU64?).getD 0
  let output := (usage.get? "output_tokens").bind Json.asU64?
  let read := (usage.get? "cache_read_input_tokens").bind Json.asU64?
  let creation := (usage.get? "cache_creation_input_tokens").bind Json.asU64?
  let prompt := satAddU64 (satAddU64 input (read.getD 0)) (creation.getD 0)
  return {
    uncachedPromptTokens     := input
    promptTokens             := prompt
    completionTokens         := output.getD 0
    totalTokens              := satAddU64 prompt (output.getD 0)
    outputTokensFinal        := output.isSome
    cacheReadInputTokens     := read
    cacheCreationInputTokens := creation }

-- A `message_delta` restates the prompt when it carries input tokens. A report of zeros is a
-- placeholder, and only its output counts.
def restated (val : Json) (usage : TokenUsage) : TokenUsage :=
  let input := (val.get? "usage").bind (·.get? "input_tokens")
  if (input.bind Json.asU64?).isSome && 0 < usage.promptTokens then
    { usage with promptFinal := true }
  else
    { completionTokens  := usage.completionTokens
      totalTokens       := usage.completionTokens
      outputTokensFinal := usage.outputTokensFinal }

-- The usage event of one stream line.
def streamUsage (val : Json) : Option TokenUsage :=
  if isErrorEvent val then none
  else
    let kind := (val.get? "type").bind Json.asStr?
    if kind = some "message_start" then
      (val.get? "message").bind fun msg =>
        (extractUsage msg).map fun usage => { usage with outputTokensFinal := false }
    else if kind = some "message_delta" then (extractUsage val).map (restated val)
    else none

end AnthropicProvider

end Gateway
