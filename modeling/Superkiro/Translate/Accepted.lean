import Superkiro.Translate.Pairing

namespace Translate

open ConversationMessage

section

variable {raw : List ConversationMessage} {pending : List String} {m : ConversationMessage}

-- How the turns of a conversation look before they are repaired.
inductive Turned (m : ConversationMessage) : Prop
  | assistant     : m.role = .assistant → m.toolUseId = none → Turned m
  | tool {id : String} : m.role = .tool → m.toolUseId = some id → m.toolCalls = [] → Turned m
  | user          : m.role = .user → m.toolUseId = none → m.toolCalls = [] → Turned m

def ConversationMessage.event (m : ConversationMessage) : Event :=
  match m.role, m.toolUseId with
  | .assistant, _   => .calls m.callIds
  | .tool, some id  => .result id
  | _, _            => .text

theorem answering_omitted {ms : List ChatMessage} :
    Answering pending ((pending.map omitted).map (·.toChatMessage) ++ ms) ↔ Answering [] ms := by
  induction pending
  case nil => rfl
  case cons id pending hi =>
    have hr : (omitted id).toChatMessage.role = .tool := rfl
    rw [List.map_cons, List.map_cons, List.cons_append, Answering, if_pos hr]
    constructor
    case mp =>
      rintro ⟨id', he, _, h⟩
      cases he
      rw [List.erase_cons_head] at h
      exact hi.mp h
    case mpr =>
      intro h
      refine ⟨id, rfl, by simp, ?_⟩
      rw [List.erase_cons_head]
      exact hi.mpr h

theorem answering_repairFrom (h : ∀ m ∈ raw, Turned m) :
    Answering pending ((repairFrom pending raw).map (·.toChatMessage)) ↔
      InOrder pending (raw.map (·.event)) := by
  induction raw generalizing pending
  case nil =>
    have ha := @answering_omitted pending []
    rw [List.append_nil] at ha
    simp only [repairFrom, ha, Answering, List.map_nil, InOrder]
  case cons m raw hi =>
    have hi := fun pending => @hi pending fun m hm => h m (by simp [hm])
    cases h m (by simp)
    case assistant hr hn =>
      have hm : m.toChatMessage.role ≠ .tool := by simp [toChatMessage, hr]
      have he : m.event = .calls m.callIds := by simp [event, hr]
      simp only [repairFrom, hr, List.map_append, List.map_cons, answering_omitted, he, InOrder]
      rw [Answering, if_neg hm, ← hi]
      simp [ChatMessage.callIds, callIds, toChatMessage]
    case tool id hr hn hc =>
      have he : m.event = .result id := by simp [event, hr, hn]
      simp only [repairFrom, hr, hn, List.map_cons, he, InOrder]
      split
      case isTrue hp =>
        have hm : m.toChatMessage.role = .tool := by simp [toChatMessage, hr]
        rw [List.map_cons, Answering, if_pos hm, ← hi]
        simp [toChatMessage, hn, hp]
      case isFalse hp =>
        have hm : m.orphaned.toChatMessage.role ≠ .tool := by simp [toChatMessage, orphaned]
        have hcalls : m.orphaned.toChatMessage.callIds = [] := by
          simp [toChatMessage, orphaned, ChatMessage.callIds, hc]
        rw [List.map_cons, Answering, if_neg hm, hcalls]
        constructor
        case mp =>
          rintro ⟨he, h⟩
          subst he
          exact ⟨.inl rfl, (hi _).mp h⟩
        case mpr =>
          rintro ⟨he, h⟩
          have he := he.resolve_right hp
          subst he
          exact ⟨rfl, (hi _).mpr h⟩
    case user hr hn hc =>
      have hm : m.toChatMessage.role ≠ .tool := by simp [toChatMessage, hr]
      have hcalls : m.toChatMessage.callIds = [] := by
        simp [toChatMessage, ChatMessage.callIds, hc]
      have he : m.event = .text := by simp [event, hr]
      simp only [repairFrom, hr, hn, Option.isNone_none, if_true, List.map_append, List.map_cons,
        answering_omitted, he, InOrder]
      rw [Answering, if_neg hm, hcalls, ← hi]
      simp

-- Turns come from those there were, or stand for answers.
theorem mem_repairFrom (ht : ∀ m ∈ raw, Turned m) (hm : m ∈ repairFrom pending raw) :
    (∃ id, m = omitted id) ∨ m ∈ raw ∨ ∃ m' ∈ raw, m'.role = .tool ∧ m = m'.orphaned := by
  induction raw generalizing pending
  case nil =>
    have ⟨id, _, he⟩ := List.mem_map.mp hm
    exact .inl ⟨id, he.symm⟩
  case cons m' raw hi =>
    have later {pending : List String} (h : m ∈ repairFrom pending raw) :
        (∃ id, m = omitted id) ∨ m ∈ m' :: raw ∨
          ∃ x ∈ m' :: raw, x.role = .tool ∧ m = x.orphaned := by
      rcases hi (fun m hm => ht m (by simp [hm])) h with ho | h | ⟨x, hx, h⟩
      case inl => exact .inl ho
      case inr.inl => exact .inr (.inl (by simp [h]))
      case inr.inr => exact .inr (.inr ⟨x, by simp [hx], h⟩)
    cases ht m' (by simp)
    case assistant hr _ =>
      simp only [repairFrom, hr, List.mem_append, List.mem_map, List.mem_cons] at hm
      rcases hm with ⟨id, _, he⟩ | rfl | hm
      case inl => exact .inl ⟨id, he.symm⟩
      case inr.inl => exact .inr (.inl (by simp))
      case inr.inr => exact later hm
    case tool id hr hid _ =>
      simp only [repairFrom, hr, hid] at hm
      split at hm
      case isTrue =>
        cases hm
        case head => exact .inr (.inl (by simp))
        case tail hm => exact later hm
      case isFalse =>
        cases hm
        case head => exact .inr (.inr ⟨m', by simp, hr, rfl⟩)
        case tail hm => exact later hm
    case user hr hn _ =>
      simp only [repairFrom, hr, hn, Option.isNone_none, if_true, List.mem_append, List.mem_map,
        List.mem_cons] at hm
      rcases hm with ⟨id, _, he⟩ | rfl | hm
      case inl => exact .inl ⟨id, he.symm⟩
      case inr.inl => exact .inr (.inl (by simp))
      case inr.inr => exact later hm

theorem calling_repairFrom (h : ∀ m ∈ raw, Turned m) :
    Calling ((repairFrom pending raw).map (·.toChatMessage)) := by
  intro m hm ha
  have ⟨x, hx, he⟩ := List.mem_map.mp hm
  subst he
  have calls {m : ConversationMessage} (ht : Turned m) (ha : m.role ≠ .assistant) :
      m.toolCalls = [] := by
    cases ht
    case assistant hr _ => exact absurd hr ha
    case tool hc => exact hc
    case user hc => exact hc
  rcases mem_repairFrom h hx with ⟨id, rfl⟩ | hx | ⟨m', hm', hr, rfl⟩
  case inl => rfl
  case inr.inl => exact congrArg (List.map (·.id)) (calls (h x hx) ha)
  case inr.inr => exact congrArg (List.map (·.id)) (calls (h m' hm') (by simp [hr]))

-- What a turn says, before the conversation is repaired.
def Said.Says (m : ConversationMessage) : Said → Prop
  | .user text      => m.role = .user ∧ mentions text m.content
  | .assistant text => m.role = .assistant ∧ m.content = .str text
  | .result r       => m = resultMessage r

theorem conveys_omitted (h : Conveys ss ms) :
    Conveys ss ((pending.map omitted).map (·.toChatMessage) ++ ms) := by
  induction pending
  case nil => exact h
  case cons hi => exact .failed rfl rfl hi

theorem mentions_self (text : String) : mentions text (.str text) := List.infix_rfl

theorem infix_join {sep : String} {texts : List String} (h : text ∈ texts) :
    text.toList <:+: (Text.join sep texts).toList := by
  have hf (texts : List String) (joined : String) (h : text.toList <:+: joined.toList ∨ text ∈ texts) :
      text.toList <:+: (texts.foldl (fun joined s => joined ++ sep ++ s) joined).toList := by
    induction texts generalizing joined
    case nil => exact h.resolve_right List.not_mem_nil
    case cons t texts hi =>
      apply hi
      simp only [String.toList_append, List.mem_cons] at h ⊢
      rcases h with h | rfl | h
      case inl => exact .inl (h.trans ((List.prefix_append _ _).trans (List.prefix_append _ _)).isInfix)
      case inr.inl => exact .inl (List.suffix_append _ _).isInfix
      case inr.inr => exact .inr h
  cases h
  case head => exact hf _ _ (.inl List.infix_rfl)
  case tail h => exact hf _ _ (.inr h)

-- Every block of a result is in its text.
theorem mentions_result {r : ToolResult} {content : String} {b : Json}
    (h : (toolResultText r.content).toList <:+: content.toList) (hb : b ∈ r.content) :
    mentions (blockText b) (.str content) :=
  (infix_join (List.mem_map_of_mem hb)).trans h

theorem conveys_repairFrom (ht : ∀ m ∈ raw, Turned m)
    (h : List.Forall₂ (fun s m => s.Says m) ss raw) :
    Conveys ss ((repairFrom pending raw).map (·.toChatMessage)) := by
  induction h generalizing pending
  case nil =>
    rw [repairFrom, ← List.append_nil ((pending.map omitted).map _)]
    exact conveys_omitted .nil
  case cons s m ss raw hs _ hi =>
    have hi := fun pending => @hi pending fun m hm => ht m (by simp [hm])
    cases ht m (by simp)
    case assistant hr hn =>
      simp only [repairFrom, hr, List.map_append, List.map_cons]
      refine conveys_omitted (.said ?_ (hi _))
      cases s
      case user => exact absurd (hr.symm.trans hs.left) (by decide)
      case assistant => exact hs
      case result => exact absurd (hr.symm.trans (congrArg (·.role) hs)) nofun
    case tool id hr hn hc =>
      simp only [repairFrom, hr, hn]
      cases s
      case user => exact absurd (hr.symm.trans hs.left) (by decide)
      case assistant => exact absurd (hr.symm.trans hs.left) (by decide)
      case result r =>
        have hs : m = resultMessage r := hs
        subst hs
        split
        case isTrue => exact .said ⟨.inl rfl, fun b hb => mentions_result List.infix_rfl hb⟩ (hi _)
        case isFalse =>
          have hc : (toolResultText r.content).toList <:+:
              ("[Previous Tool Result]: " ++ toolResultText r.content).toList := by
            rw [String.toList_append]
            exact (List.suffix_append _ _).isInfix
          exact .said ⟨.inr rfl, fun b hb => mentions_result hc hb⟩ (hi _)
    case user hr hn hc =>
      simp only [repairFrom, hr, hn, Option.isNone_none, if_true, List.map_append, List.map_cons]
      refine conveys_omitted (.said ?_ (hi _))
      cases s
      case user => exact hs
      case assistant => exact absurd (hr.symm.trans hs.left) (by decide)
      case result => exact absurd (hr.symm.trans (congrArg (·.role) hs)) nofun

end

-- The turns of a message, and what they say.
structure Raw (said : List Said) (events : List Event) (raw : List ConversationMessage) :
    Prop where
  turned : ∀ m ∈ raw, Turned m
  spoken : List.Forall₂ (fun s m => s.Says m) said raw
  events : raw.map (·.event) = events

theorem Raw.nil : Raw [] [] [] := ⟨by simp, .nil, rfl⟩

theorem Raw.append (h : Raw ss es raw) (h' : Raw ss' es' raw') :
    Raw (ss ++ ss') (es ++ es') (raw ++ raw') where
  turned := fun m hm => (List.mem_append.mp hm).elim (h.turned m) (h'.turned m)
  spoken := List.rel_append h.spoken h'.spoken
  events := by rw [List.map_append, h.events, h'.events]

theorem Raw.single {m : ConversationMessage} {s : Said} (ht : Turned m) (hs : s.Says m) :
    Raw [s] [m.event] [m] :=
  ⟨by simpa using ht, .cons hs .nil, rfl⟩

theorem raw_results (rs : List ToolResult) :
    Raw (rs.map .result) (rs.map (.result ·.toolUseId)) (rs.map resultMessage) := by
  induction rs
  case nil => exact .nil
  case cons r rs hi =>
    have hs : (Said.result r).Says (resultMessage r) := rfl
    have hr : Raw [.result r] [.result r.toolUseId] [resultMessage r] :=
      .single (.tool rfl rfl rfl) hs
    exact hr.append hi

theorem callIds_toolCalls {r : ToolRegistry} {us : List ToolUseEntry} :
    (toolCalls r us).1.map (·.id) = us.map (·.toolUseId) := by
  induction us generalizing r
  case nil => rfl
  case cons hi => simp [toolCalls, hi]

theorem raw_assistant {r : ToolRegistry} (m : AssistantResponseMessage) :
    Raw [.assistant m.content] [.calls (m.toolUses.map (·.toolUseId))]
      [assistantMessage m (toolCalls r m.toolUses).1] := by
  have hs : (Said.assistant m.content).Says (assistantMessage m (toolCalls r m.toolUses).1) :=
    ⟨rfl, rfl⟩
  have he : (assistantMessage m (toolCalls r m.toolUses).1).event =
      .calls (m.toolUses.map (·.toolUseId)) := congrArg Event.calls callIds_toolCalls
  rw [← he]
  exact .single (.assistant rfl rfl) hs

theorem paired_system {prompt : Option String} (hc : Calling ms) :
    Paired (systemMessages prompt ++ ms) ↔ Paired ms := by
  unfold systemMessages
  split
  case h_1 p _ =>
    have hs : Calling ({ role := .system, content := .str p } :: ms) := by
      intro m hm
      cases hm
      case head => exact fun _ => rfl
      case tail hm => exact hc m hm
    rw [List.singleton_append, paired_iff hs, paired_iff hc, Answering, if_neg (by rintro ⟨⟩)]
    exact and_iff_right rfl
  case h_2 => rfl

section

variable [Attachments] {ctx : TranslationContext} {turn : Turn} {r : ToolRegistry}

theorem mentions_formatUserContent {content : String} {images : List KiroImage}
    {documents : List KiroDocument} :
    mentions content (formatUserContent ctx turn content images documents) := by
  have append (ts : List String) (text : String) :
      text.toList <+: (ts.foldl (fun text t => text ++ "\n" ++ t) text).toList := by
    induction ts generalizing text
    case nil => exact List.prefix_rfl
    case cons t ts hi =>
      apply List.IsPrefix.trans _ (hi _)
      rw [String.toList_append, String.toList_append, List.append_assoc]
      exact List.prefix_append _ _
  unfold formatUserContent
  split
  case isTrue => exact mentions_self content
  case isFalse =>
    dsimp only
    split
    case isTrue =>
      by_cases hc : content = ""
      case pos => exact .inl hc
      case neg => exact .inr (by simp [hc])
    case isFalse =>
      apply List.IsInfix.trans _ (append _ _).isInfix
      rw [String.toList_append]
      exact (List.suffix_append _ _).isInfix

theorem raw_user (m : UserInputMessage) :
    Raw [.user m.content] [.text] [userMessage ctx m turn] := by
  have hs : (Said.user m.content).Says (userMessage ctx m turn) := ⟨rfl, mentions_formatUserContent⟩
  exact .single (.user rfl rfl rfl) hs

theorem raw_history {position : Nat} (h : List Message) :
    Raw (h.flatMap (·.said)) (h.flatMap (·.events)) (historyMessages ctx position r h).1 := by
  induction h generalizing position r
  case nil => exact .nil
  case cons m h hi =>
    cases m
    case assistant m => exact (raw_assistant m).append hi
    case user m =>
      simp only [List.flatMap_cons, historyMessages]
      refine Raw.append ((raw_results m.toolResults).append ?_) hi
      split
      case isTrue => exact raw_user m
      case isFalse => exact .nil

theorem raw_messages (req : GenerateAssistantResponseRequest) :
    Raw req.said req.events (rawMessages ctx r req).1 := by
  have hh : Raw _ _ (historyMessages ctx 0 r req.conversationState.history).1 := raw_history _
  have hr := raw_results req.conversationState.currentMessage.toolResults
  have hu : Raw _ _ [userMessage ctx _ .current] := raw_user req.conversationState.currentMessage
  have h := hh.append (hr.append hu)
  rwa [← List.append_assoc (historyMessages ctx 0 r _).1] at h

end

theorem orderly_iff {req : GenerateAssistantResponseRequest} :
    req.Orderly ↔ InOrder [] req.events := by
  rw [inOrder_iff]
  constructor
  case mp => exact fun h => ⟨by simp, h⟩
  case mpr => exact fun h => h.right

-- No attachment can be read.
@[reducible]
def noAttachments : Attachments where
  validateImageInput _ := none
  pdfEncrypted _       := false
  refusedReason _      := none
  textOf _             := none

-- A result of no call comes before the result of the one that's open.
def crossed : GenerateAssistantResponseRequest where
  conversationState := {
    history        := [.assistant { toolUses := [{ toolUseId := "call-1", name := "read" }] }]
    currentMessage := {
      content                 := "go on"
      userInputMessageContext := some {
        toolResults := [{ toolUseId := "call-0" }, { toolUseId := "call-1" }] } } }

end Translate
