import Superkiro.Gateway.KeyPool
import Superkiro.Gateway.Usage

namespace Gateway

-- An error as Kiro is told it.
structure KiroError where
  status         : Nat
  exception      : String
  message        : String
  reason         : Option String := none
  retryAfterSecs : Option Nat := none
  deriving DecidableEq

inductive ProviderDelta
  | text (text : String)
  | reasoning (text : String)
  -- Closes a thinking block.
  | reasoningSignature (signature : String)
  -- A fragment of a tool call, at the call's position where the upstream gives it.
  | toolCallChunk (index : Option Nat) (id name : Option String) (arguments : String)
  deriving DecidableEq

inductive ProviderStreamEvent
  | delta (d : ProviderDelta)
  | usage (u : TokenUsage)
  | stopReason (reason : String)
  -- The model has begun its answer.
  | started
  -- The attempt that serves the answer.
  | served (providerId targetModel : String)
  -- The route ended without an answer after the answer had begun.
  | failed (error : KiroError)
  | heartbeat
  | refusal (category explanation : Option String)
  | done
  deriving DecidableEq

-- The arguments of the calls of a response, in bytes.
def maxToolArgumentBytes : Nat := 8 * 1024 * 1024

end Gateway
