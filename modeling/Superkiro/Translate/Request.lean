import Superkiro.Lib.Json
import Superkiro.Translate.Registry

namespace Translate

structure KiroImage where
  format : String
  bytes  : String

structure KiroDocument where
  name   : String := ""
  format : String := ""
  bytes  : String

structure ToolSpecification where
  name        : String
  description : String := ""
  inputSchema : Json

inductive Tool
  | wrapped (spec : ToolSpecification)
  | direct (spec : ToolSpecification)

structure ToolResult where
  toolUseId : String
  content   : List Json := []
  status    : Option String := none

structure ToolUseEntry where
  toolUseId : String
  name      : String
  input     : Json := .null

inductive ReasoningEffort
  | low
  | medium
  | high
  | xhigh
  | max
  deriving DecidableEq

structure EffortConfig where
  effort : Option ReasoningEffort := none

structure ModelRequestFields where
  outputConfig : Option EffortConfig := none
  reasoning    : Option EffortConfig := none

structure UserInputMessageContext where
  additionalModelRequestFields : Option ModelRequestFields := none
  tools                        : List Tool := []
  toolResults                  : List ToolResult := []

structure UserInputMessage where
  additionalModelRequestFields : Option ModelRequestFields := none
  content                      : String := ""
  images                       : List KiroImage := []
  documents                    : List KiroDocument := []
  userInputMessageContext      : Option UserInputMessageContext := none

structure ReasoningText where
  text      : String := ""
  signature : Option String := none

structure AssistantResponseMessage where
  content       : String := ""
  toolUses      : List ToolUseEntry := []
  reasoningText : Option ReasoningText := none

inductive Message
  | user (m : UserInputMessage)
  | assistant (m : AssistantResponseMessage)

structure ConversationState where
  additionalModelRequestFields : Option ModelRequestFields := none
  currentMessage               : UserInputMessage
  history                      : List Message := []

structure GenerateAssistantResponseRequest where
  systemPrompt                 : Option String := none
  additionalModelRequestFields : Option ModelRequestFields := none
  conversationState            : ConversationState

namespace UserInputMessage

def toolResults (m : UserInputMessage) : List ToolResult :=
  (m.userInputMessageContext.map (·.toolResults)).getD []

def tools (m : UserInputMessage) : List Tool := (m.userInputMessageContext.map (·.tools)).getD []

end UserInputMessage

-- The first effort that's asked for: by the context, the message, the request or the conversation.
def GenerateAssistantResponseRequest.reasoningEffort (req : GenerateAssistantResponseRequest) :
    Option ReasoningEffort :=
  let input := req.conversationState.currentMessage
  let fields := [
    input.userInputMessageContext.bind (·.additionalModelRequestFields),
    input.additionalModelRequestFields,
    req.additionalModelRequestFields,
    req.conversationState.additionalModelRequestFields]
  (fields.filterMap id).findSome? fun f => (f.outputConfig <|> f.reasoning).bind (·.effort)

inductive Role
  | system
  | user
  | assistant
  | tool
  deriving DecidableEq

structure ToolCallEntry where
  id        : String
  name      : String
  arguments : Json

structure ThinkingBlock where
  text      : String
  signature : String
  model     : String
  deriving DecidableEq

structure ChatMessage where
  role       : Role
  content    : Json
  toolCallId : Option String := none
  toolCalls  : List ToolCallEntry := []
  isError    : Option Bool := none
  thinking   : Option ThinkingBlock := none

-- The temperature is a float, as it's written in JSON.
structure ChatRequest where
  reasoningEffort : Option ReasoningEffort := none
  model           : String
  messages        : List ChatMessage
  temperature     : Option Json := none
  maxTokens       : Option Nat := none
  stream          : Bool := true
  tools           : List Json := []

namespace ChatMessage

def callIds (m : ChatMessage) : List String := m.toolCalls.map (·.id)

end ChatMessage
end Translate
