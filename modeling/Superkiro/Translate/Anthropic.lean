import Superkiro.Lib.Fallible
import Superkiro.Lib.Grouped
import Superkiro.Translate.Family
import Superkiro.Translate.ToProvider

namespace Translate

inductive Speaker
  | user
  | assistant
  deriving DecidableEq

-- What the operator sets for a provider.
structure ProviderOptions where
  replayThinking : Bool := false
  eagerToolInput : Bool := false
  promptCache    : Bool := true

inductive ProviderError
  | thinkingNeedsOutput (needed allowed : Nat)
  deriving DecidableEq

inductive System
  | text (s : String)
  | blocks (bs : List Json)

-- The body of a request. A message is a role and its content.
structure Body where
  model        : String
  messages     : List (Speaker × List Json)
  maxTokens    : Nat
  stream       : Bool := true
  system       : Option System := none
  thinking     : Option Json := none
  outputConfig : Option Json := none
  temperature  : Option Json := none
  tools        : Option (List Json) := none

def blockType (b : Json) : Option String := (b.get? "type").bind Json.asStr?

-- The media type and the data of a URL that holds them.
def dataUrl (url : Json) : Option (String × String) :=
  url.asStr?.bind fun url => (stripStart "data:" url.toList).bind fun rest =>
    (splitOnceAt ";base64,".toList rest).map fun (mediaType, data) =>
      (.ofList mediaType, .ofList data)

def base64Source (mediaType data : String) : Json :=
  .obj [("data", .str data), ("media_type", .str mediaType), ("type", .str "base64")]

-- A file as a document, with its name where it has one.
def documentBlock (file : Json) (mediaType data : String) : Json :=
  let title := ((file.get? "filename").bind Json.asStr?).filter (· ≠ "")
  .obj ([("source", base64Source mediaType data)] ++
    (title.map fun name => ("title", .str name)).toList ++ [("type", .str "document")])

def normalizeContentBlock (val : Json) : Json :=
  let file := (val.get? "file").getD .null
  let data := ((file.get? "file_data").bind dataUrl).filter fun _ => blockType val = some "file"
  match data with
  | some (mediaType, data) => documentBlock file mediaType data
  | none                   =>
    let url := ((val.get? "image_url").bind (·.get? "url")).bind dataUrl
    match url.filter fun _ => blockType val = some "image_url" with
    | some (mediaType, data) =>
      .obj [("source", base64Source mediaType data), ("type", .str "image")]
    | none                   => val

def thinkingBlock (t : ThinkingBlock) : Json :=
  .obj [("signature", .str t.signature), ("thinking", .str t.text), ("type", .str "thinking")]

def toolUseBlock (c : ToolCallEntry) : Json :=
  .obj [("id", .str c.id), ("input", c.arguments), ("name", .str c.name), ("type", .str "tool_use")]

def toolResultBlock (m : ChatMessage) : Json :=
  let content :=
    match m.content with
    | .str s => s
    | other  => other.compact
  .obj ([("content", .str content)] ++
    (if m.isError = some true then [("is_error", .bool true)] else []) ++
    [("tool_use_id", .str (m.toolCallId.getD "")), ("type", .str "tool_result")])

def contentBlocks : Json → List Json
  | .str s  => if s = "" then [] else [textPart s]
  | .arr xs => xs.map normalizeContentBlock
  | _       => []

-- Signed thinking goes back first, to the model that wrote it alone.
def assistantBlocks (options : ProviderOptions) (model : String) (m : ChatMessage) : List Json :=
  let thinking := m.thinking.filter fun t => options.replayThinking && t.model = model
  (thinking.map thinkingBlock).toList ++ contentBlocks m.content ++ m.toolCalls.map toolUseBlock

-- The role and the blocks a message is sent with.
def messageBlocks (options : ProviderOptions) (model : String) (m : ChatMessage) :
    Option (Speaker × List Json) :=
  match m.role with
  | .system      => none
  | .assistant   => some (.assistant, assistantBlocks options model m)
  | .tool        => some (.user, [toolResultBlock m])
  | .user        =>
    if m.toolCallId.isSome then some (.user, [toolResultBlock m])
    else some (.user, contentBlocks m.content)

def systemText (messages : List ChatMessage) : String :=
  (messages.filter (·.role = .system)).foldl (fun text m =>
    let text := if text = "" then text else text ++ "\n"
    match m.content with
    | .str s => text ++ s
    | other  => text ++ other.compact) ""

def continuation : Speaker × List Json := (.user, [textPart "(continue)"])

-- A request begins and ends with the user's turn.
def bracketed (messages : List (Speaker × List Json)) : List (Speaker × List Json) :=
  let messages :=
    match messages with
    | []                  => [(.user, [textPart ""])]
    | (.assistant, _) :: _ => continuation :: messages
    | (.user, _) :: _     => messages
  if (messages.getLast?).any (·.1 = .assistant) then messages ++ [continuation] else messages

def translateMessages (options : ProviderOptions) (req : ChatRequest) : List (Speaker × List Json) :=
  let raw := (req.messages.filterMap (messageBlocks options req.model)).filter (·.2 ≠ [])
  bracketed (Grouped.merge raw)

def adaptiveThinking (summarized : Bool) : Json :=
  .obj ((if summarized then [("display", .str "summarized")] else []) ++ [("type", .str "adaptive")])

def budgetOf : ReasoningEffort → Nat
  | .low    => 1024
  | .medium => 4096
  | .high   => 8192
  | .xhigh  => 16384
  | .max    => 24576

def enabledThinking (budget : Nat) : Json :=
  .obj [("budget_tokens", .num budget), ("type", .str "enabled")]

-- How a model is asked to think, and with what effort.
def reasoningFields (reasoning : Reasoning) (effort : Option ReasoningEffort) (maxTokens : Nat) :
    Except ProviderError (Option Json × Option Json) :=
  match reasoning, effort with
  | .adaptive xhigh summarized _, some effort =>
    .ok (some (adaptiveThinking summarized),
      some (.obj [("effort", .str (ModelFamily.adaptiveEffort xhigh effort))]))
  | .adaptive _ true true, none => .ok (some (adaptiveThinking true), none)
  | _, none => .ok (none, none)
  | _, some effort =>
    let budget := min (budgetOf effort) (maxTokens - max (maxTokens / 4) 1024)
    if budget < 1024 then .error (.thinkingNeedsOutput 2048 maxTokens)
    else .ok (some (enabledThinking budget), none)

def emptySchema : Json := .obj [("properties", .obj []), ("type", .str "object")]

def toolJson (name description inputSchema : Json) : Json :=
  .obj [("description", description), ("input_schema", inputSchema), ("name", name)]

-- Kiro wraps a schema, which a model can't read.
def unwrapSchema (schema : Json) : Json :=
  match schema.get? "json" with
  | some inner => if inner.isObject then inner else schema
  | none       => schema

def normalizeTool (t : Json) : Json :=
  match t.get? "toolSpec" <|> t.get? "toolSpecification" with
  | some spec =>
    let schema := spec.get? "inputSchema" <|> spec.get? "input_schema" <|>
      (spec.get? "input").bind (·.get? "json")
    toolJson ((spec.get? "name").getD (.str "")) ((spec.get? "description").getD (.str ""))
      (unwrapSchema (schema.getD emptySchema))
  | none      =>
    match t.get? "function" with
    | some func =>
      toolJson ((func.get? "name").getD (.str "")) ((func.get? "description").getD (.str ""))
        ((func.get? "parameters").getD emptySchema)
    | none      => t

def normalizeTools (options : ProviderOptions) (tools : List Json) : Option (List Json) :=
  if tools.isEmpty then none
  else
    let normalized := tools.map normalizeTool
    some <| if options.eagerToolInput then
      normalized.map fun t => if t.isObject then t.set "eager_input_streaming" (.bool true) else t
    else normalized

def cacheControl : Json := .obj [("type", .str "ephemeral")]

def mark (b : Json) : Json := b.set "cache_control" cacheControl

def modifyLast (f : α → α) : List α → List α
  | []      => []
  | [x]     => [f x]
  | x :: xs => x :: modifyLast f xs

-- An empty text can't be marked.
def markBlock (b : Json) : Json :=
  let text := (b.get? "text").bind Json.asStr?
  if blockType b ≠ some "text" || text.any (· ≠ "") then mark b else b

-- Marks the ends of the first user turns of a conversation that is read from its end.
def markTurns : Nat → List (Speaker × List Json) → List (Speaker × List Json)
  | 0, ms                          => ms
  | _, []                          => []
  | n + 1, (.user, blocks) :: ms   => (.user, modifyLast markBlock blocks) :: markTurns n ms
  | n + 1, (.assistant, bs) :: ms  => (.assistant, bs) :: markTurns (n + 1) ms

def System.marked : System → System
  | .text s    => if s = "" then .text s else .blocks [mark (textPart s)]
  | .blocks bs => .blocks bs

def addCacheBreakpoints (body : Body) : Body :=
  { body with
    tools    := body.tools.map (modifyLast mark)
    system   := body.system.map (·.marked)
    messages := (markTurns 2 body.messages.reverse).reverse }

-- Whether a prompt may be read again soon, which writing it to a cache pays for.
def readAgain (body : Body) : Bool :=
  body.tools.any (!·.isEmpty) || body.messages.any (·.1 = .assistant)

def translateRequestWith (options : ProviderOptions) (req : ChatRequest) :
    Except ProviderError Body := do
  let messages := translateMessages options req
  let maxTokens := req.maxTokens.getD 4096
  let system := systemText req.messages
  let f := family req.model
  let (thinking, outputConfig) ← reasoningFields f.reasoning req.reasoningEffort maxTokens
  let body : Body := {
    model        := req.model
    messages     := messages
    maxTokens    := maxTokens
    system       := if system = "" then none else some (.text system)
    thinking     := thinking
    outputConfig := outputConfig
    temperature  := req.temperature.filter fun _ => f.sampling && thinking.isNone
    tools        := normalizeTools options req.tools }
  return if options.promptCache && readAgain body then addCacheBreakpoints body else body

end Translate
