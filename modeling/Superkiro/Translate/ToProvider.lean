import Superkiro.Translate.Repair

namespace Translate

open ConversationMessage

namespace Tool

def specJson (s : ToolSpecification) : Json :=
  .obj [("description", .str s.description), ("inputSchema", s.inputSchema), ("name", .str s.name)]

def toJson : Tool → Json
  | .wrapped s => .obj [("toolSpecification", specJson s)]
  | .direct s  => specJson s

end Tool

-- Gives a tool the name it's registered under.
def renameSpec (r : ToolRegistry) (spec : Json) : Json × ToolRegistry :=
  match (spec.get? "name").bind Json.asStr? with
  | some name => (spec.set "name" (.str (r.register name).1), (r.register name).2)
  | none      => (spec, r)

def processTool (r : ToolRegistry) (tool : Json) : Json × ToolRegistry :=
  match tool.get? "toolSpecification" with
  | some spec => (tool.set "toolSpecification" (renameSpec r spec).1, (renameSpec r spec).2)
  | none      => renameSpec r tool

example : ((processTool {} (Tool.wrapped ⟨"a.b", "", .null⟩).toJson).1.get? "toolSpecification"
    |>.bind (·.get? "name") |>.bind Json.asStr?) = some "a_b_1eef715d" := by decide +kernel

def processToolsForProvider (r : ToolRegistry) : List Json → List Json × ToolRegistry
  | []            => ([], r)
  | tool :: tools =>
    let (done, r) := processTool r tool
    let (rest, r) := processToolsForProvider r tools
    (done :: rest, r)

def toolCalls (r : ToolRegistry) : List ToolUseEntry → List ToolCallEntry × ToolRegistry
  | []      => ([], r)
  | u :: us =>
    let (name, r) := r.register u.name
    let (rest, r) := toolCalls r us
    (⟨u.toolUseId, name, u.input⟩ :: rest, r)

-- The model that signed a text, and its signature.
def untagSignature (tagged : String) : Option (String × String) :=
  match tagged.toList.reverse.span (· ≠ '#') with
  | (_, [])                 => none
  | (signature, _ :: model) =>
    if model = [] ∨ signature = [] then none
    else some (.ofList model.reverse, .ofList signature.reverse)

def thinkingOf (reasoning : Option ReasoningText) : Option ThinkingBlock := do
  let r ← reasoning
  guard (r.text ≠ "")
  let (model, signature) ← untagSignature (← r.signature)
  return ⟨r.text, signature, model⟩

def resultMessage (r : ToolResult) : ConversationMessage where
  role      := .tool
  content   := .str (toolResultText r.content)
  toolUseId := some r.toolUseId
  isError   := r.status.map fun s => s = "error" || s = "failed"

def assistantMessage (m : AssistantResponseMessage) (calls : List ToolCallEntry) :
    ConversationMessage where
  role      := .assistant
  content   := .str m.content
  toolCalls := calls
  thinking  := thinkingOf m.reasoningText

section

variable [Attachments] (ctx : TranslationContext)

def userMessage (m : UserInputMessage) (turn : Turn) : ConversationMessage where
  role    := .user
  content := formatUserContent ctx turn m.content m.images m.documents

-- Whether there is anything in a message but tool results.
def hasContent (m : UserInputMessage) : Bool :=
  m.content ≠ "" || !m.images.isEmpty || !m.documents.isEmpty

-- The turns of a conversation from a position on, and the names of the tools they call.
def historyMessages (position : Nat) (r : ToolRegistry) :
    List Message → List ConversationMessage × ToolRegistry
  | []                => ([], r)
  | .assistant m :: h =>
    let (calls, r) := toolCalls r m.toolUses
    let (rest, r) := historyMessages (position + 1) r h
    (assistantMessage m calls :: rest, r)
  | .user m :: h      =>
    let (rest, r) := historyMessages (position + 1) r h
    let text := if hasContent m then [userMessage ctx m (.history position)] else []
    (m.toolResults.map resultMessage ++ text ++ rest, r)

def systemMessages (prompt : Option String) : List ChatMessage :=
  match prompt.filter (!Text.isBlank ·) with
  | some p => [{ role := .system, content := .str p }]
  | none   => []

def rawMessages (r : ToolRegistry) (req : GenerateAssistantResponseRequest) :
    List ConversationMessage × ToolRegistry :=
  let (history, r) := historyMessages ctx 0 r req.conversationState.history
  let current := req.conversationState.currentMessage
  (history ++ current.toolResults.map resultMessage ++ [userMessage ctx current .current], r)

def translateKiroToChatRequest (req : GenerateAssistantResponseRequest) :
    ChatRequest × TranslationContext :=
  let tools := req.conversationState.currentMessage.tools.map (·.toJson)
  let (tools, r) := processToolsForProvider ctx.toolRegistry tools
  let (raw, r) := rawMessages ctx r req
  ({
    reasoningEffort := req.reasoningEffort
    model           := ctx.targetModel
    messages        := systemMessages req.systemPrompt ++
      (repairOrphanToolPairs raw).map (·.toChatMessage)
    temperature     := some (.real "0.699999988079071")
    maxTokens       := some 4096
    stream          := true
    tools           := tools
  }, { ctx with toolRegistry := r })

end

end Translate
