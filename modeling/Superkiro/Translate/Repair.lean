import Superkiro.Translate.Content

namespace Translate

-- A turn of a conversation while the pairs of tool calls and results are repaired.
structure ConversationMessage where
  role      : Role
  content   : Json
  toolUseId : Option String := none
  toolCalls : List ToolCallEntry := []
  isError   : Option Bool := none
  thinking  : Option ThinkingBlock := none

namespace ConversationMessage

def callIds (m : ConversationMessage) : List String := m.toolCalls.map (·.id)

-- What stands for the answer to a call that has none.
def omitted (id : String) : ConversationMessage where
  role      := .tool
  content   := .str "\x7b\"error\": \"tool call omitted or cancelled by client\"\x7d"
  toolUseId := some id
  isError   := some true

-- A result that answers none of the calls becomes a turn of the user.
def orphaned (m : ConversationMessage) : ConversationMessage :=
  { m with
    role      := .user
    content   :=
      match m.content with
      | .str s => .str ("[Previous Tool Result]: " ++ s)
      | other  => other
    toolUseId := none
    isError   := none }

def toChatMessage (m : ConversationMessage) : ChatMessage where
  role       := m.role
  content    := m.content
  toolCallId := m.toolUseId
  toolCalls  := m.toolCalls
  isError    := m.isError
  thinking   := m.thinking

end ConversationMessage

open ConversationMessage

-- Goes through the turns in their order, with the calls that aren't answered yet.
def repairFrom (pending : List String) : List ConversationMessage → List ConversationMessage
  | []      => pending.map omitted
  | m :: ms =>
    match m.role with
    | .assistant => pending.map omitted ++ m :: repairFrom m.callIds ms
    | .tool      =>
      match m.toolUseId with
      | some id =>
        if id ∈ pending then m :: repairFrom (pending.erase id) ms
        else m.orphaned :: repairFrom pending ms
      | none    => { m with role := .user } :: repairFrom pending ms
    | .user | .system =>
      if m.toolUseId.isNone then pending.map omitted ++ m :: repairFrom [] ms
      else m :: repairFrom pending ms

def repairOrphanToolPairs (messages : List ConversationMessage) : List ConversationMessage :=
  repairFrom [] messages

end Translate
