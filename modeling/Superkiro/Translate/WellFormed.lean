import Superkiro.Translate.Blocks

namespace Translate

-- Content that answers calls, before anything else in it.
def Answers (bs : List Json) (pending : List String) : Prop :=
  ∃ rs os, bs = rs ++ os ∧ (∀ r ∈ rs, (resultId? r).isSome) ∧ (∀ o ∈ os, resultId? o = none) ∧
    (rs.filterMap resultId?).Perm pending

-- Every call is answered by the message that follows, and nothing else is.
def Matched (pending : List String) : List (Speaker × List Json) → Prop
  | []                    => pending = []
  | (.user, bs) :: ms      => Answers bs pending ∧ Matched [] ms
  | (.assistant, bs) :: ms => pending = [] ∧ Matched (uses bs) ms

section

variable {pending : List String} {b : Json} {bs cs : List Json} {id : String}

@[simp]
theorem answers_nil : Answers [] pending ↔ pending = [] := by
  constructor
  case mp =>
    intro ⟨rs, os, he, _, _, hp⟩
    have hn : rs = [] := (List.append_eq_nil_iff.mp he.symm).left
    rw [hn] at hp
    simpa using hp.symm.eq_nil
  case mpr =>
    rintro rfl
    exact ⟨[], [], rfl, by simp, by simp, by simp⟩

theorem answers_cons_result (hb : resultId? b = some id) :
    Answers (b :: bs) pending ↔ id ∈ pending ∧ Answers bs (pending.erase id) := by
  constructor
  case mp =>
    intro ⟨rs, os, he, hr, ho, hp⟩
    cases rs
    case nil =>
      have := ho b (by rw [← List.nil_append os, ← he]; simp)
      rw [hb] at this
      cases this
    case cons r rs =>
      rw [List.cons_append, List.cons.injEq] at he
      have ⟨hrb, he⟩ := he
      rw [← hrb, List.filterMap_cons_some hb] at hp
      have hid : id ∈ pending := hp.subset (by simp)
      exact ⟨hid, rs, os, he, fun r hm => hr r (by simp [hm]), ho,
        (hp.trans (List.perm_cons_erase hid)).cons_inv⟩
  case mpr =>
    intro ⟨hid, rs, os, he, hr, ho, hp⟩
    refine ⟨b :: rs, os, by rw [he]; rfl, ?_, ho, ?_⟩
    · intro r hm
      cases hm
      case head => simp [hb]
      case tail hm => exact hr r hm
    · rw [List.filterMap_cons_some hb]
      exact (hp.cons id).trans (List.perm_cons_erase hid).symm

theorem answers_of_no_result (hn : bs ≠ []) (hb : ∀ b ∈ bs, resultId? b = none) :
    Answers (bs ++ cs) pending ↔ pending = [] ∧ Answers cs [] := by
  have hs {rs os : List Json} (he : bs ++ cs = rs ++ os) (hr : ∀ r ∈ rs, (resultId? r).isSome) :
      rs = [] := by
    cases rs
    case nil => rfl
    case cons r rs =>
      cases bs
      case nil => exact absurd rfl hn
      case cons b bs =>
        rw [List.cons_append, List.cons_append, List.cons.injEq] at he
        have hr := hr r (by simp)
        rw [← he.left, hb b (by simp)] at hr
        cases hr
  constructor
  case mp =>
    intro ⟨rs, os, he, hr, ho, hp⟩
    have hr := hs he hr
    subst hr
    refine ⟨by simpa using hp.symm.eq_nil, [], cs, rfl, by simp, ?_, by simp⟩
    intro c hc
    apply ho
    rw [List.nil_append] at he
    simp [← he, hc]
  case mpr =>
    intro ⟨hp, rs, os, he, hr, ho, hp'⟩
    subst hp
    have hrs : rs = [] := by
      cases rs
      case nil => rfl
      case cons r rs =>
        have ⟨id, hid⟩ := Option.isSome_iff_exists.mp (hr r (by simp))
        rw [List.filterMap_cons_some hid] at hp'
        cases hp'.eq_nil
    subst hrs
    refine ⟨[], bs ++ cs, rfl, by simp, ?_, by simp⟩
    intro o ho'
    cases List.mem_append.mp ho'
    case inl h => exact hb o h
    case inr h => exact ho o (by simpa [he] using h)

end

section

variable {pending : List String} {b : Json} {bs : List Json} {id : String}
variable {ms : List (Speaker × List Json)}

theorem matched_push_result (hb : resultId? b = some id) :
    Matched pending (Grouped.push (.user, [b]) ms) ↔
      id ∈ pending ∧ Matched (pending.erase id) ms := by
  cases ms
  case nil => simp [Grouped.push, Matched, answers_cons_result hb]
  case cons m ms =>
    obtain ⟨role, cs⟩ := m
    cases role
    case user => simp [Grouped.push, Matched, answers_cons_result hb, and_assoc]
    case assistant => simp [Grouped.push, Matched, answers_cons_result hb, and_assoc]

theorem matched_push_user (hn : bs ≠ []) (hb : ∀ b ∈ bs, resultId? b = none) :
    Matched pending (Grouped.push (.user, bs) ms) ↔ pending = [] ∧ Matched [] ms := by
  have hself : Answers bs pending ↔ pending = [] := by
    have h : Answers (bs ++ []) pending ↔ pending = [] ∧ Answers [] [] :=
      answers_of_no_result hn hb
    simpa using h
  cases ms
  case nil => simp [Grouped.push, Matched, hself]
  case cons m ms =>
    obtain ⟨role, cs⟩ := m
    cases role
    case user => simp [Grouped.push, Matched, answers_of_no_result hn hb, and_assoc]
    case assistant => simp [Grouped.push, Matched, hself]

theorem matched_push_assistant (h : uses bs = [] ∨ ∀ m ∈ ms.head?, m.1 = .user) :
    Matched pending (Grouped.push (.assistant, bs) ms) ↔ pending = [] ∧ Matched (uses bs) ms := by
  cases ms
  case nil => simp [Grouped.push, Matched]
  case cons m ms =>
    obtain ⟨role, cs⟩ := m
    cases role
    case user => simp [Grouped.push, Matched]
    case assistant =>
      have hu : uses bs = [] := h.resolve_right fun h => by cases h _ rfl
      have ha : uses (bs ++ cs) = uses cs := by
        rw [uses, List.filterMap_append]
        exact congrArg (· ++ uses cs) hu
      simp [Grouped.push, Matched, ha, hu]

end

-- The parts user content is made of.
inductive IsPart : Json → Prop
  | text  : IsPart (textPart text)
  | image : IsPart (imagePart url)
  | file  : IsPart (.obj [
    ("file", .obj [("file_data", .str data), ("filename", .str name)]), ("type", .str "file")])

-- The content of messages that are translated.
inductive IsContent (role : Role) : Json → Prop
  | str   : IsContent role (.str text)
  | parts : role = .user → (∀ p ∈ parts, IsPart p) → IsContent role (.arr parts)

-- Blocks that aren't marked and neither call tools nor answer, and aren't thinking.
structure Ordinary (b : Json) : Prop where
  object   : b.isObject
  unmarked : isMarked b = false
  kind     : ∀ t ∈ ["tool_use", "tool_result", "thinking"], blockType b ≠ some t

namespace Ordinary

variable {b : Json}

theorem useId? (h : Ordinary b) : useId? b = none := if_neg (h.kind _ (by simp))

theorem resultId? (h : Ordinary b) : resultId? b = none := if_neg (h.kind _ (by simp))

end Ordinary

theorem Ordinary.of_type {b : Json} {t : String} (ho : b.isObject) (hm : isMarked b = false)
    (hb : blockType b = some t) (ht : t ∉ ["tool_use", "tool_result", "thinking"]) :
    Ordinary b where
  object   := ho
  unmarked := hm
  kind     := by
    intro t' hm' he
    rw [hb, Option.some.injEq] at he
    exact ht (he ▸ hm')

theorem ordinary_text {text : String} : Ordinary (textPart text) :=
  .of_type rfl rfl rfl (by decide)

theorem ordinary_document {file : Json} {media data : String} :
    Ordinary (documentBlock file media data) := by
  unfold documentBlock
  cases ((file.get? "filename").bind Json.asStr?).filter (· ≠ "")
  case none => exact .of_type rfl rfl rfl (by decide)
  case some => exact .of_type rfl rfl rfl (by decide)

theorem ordinary_normalize {p : Json} (h : IsPart p) : Ordinary (normalizeContentBlock p) := by
  unfold normalizeContentBlock
  dsimp only
  split
  case h_1 => exact ordinary_document
  case h_2 =>
    split
    case h_1 => exact .of_type rfl rfl rfl (by decide)
    case h_2 =>
      cases h
      case text => exact ordinary_text
      case image => exact .of_type rfl rfl rfl (by decide)
      case file => exact .of_type rfl rfl rfl (by decide)

theorem ordinary_contentBlocks {role : Role} {content : Json} (h : IsContent role content) :
    ∀ b ∈ contentBlocks content, Ordinary b := by
  intro b hb
  cases h
  case str =>
    simp only [contentBlocks] at hb
    split at hb
    case isTrue => cases hb
    case isFalse =>
      rw [List.mem_singleton] at hb
      exact hb ▸ ordinary_text
  case parts hp =>
    have ⟨p, hp', he⟩ := List.mem_map.mp hb
    exact he ▸ ordinary_normalize (hp p hp')

section

variable [Attachments] {ctx : TranslationContext} {turn : Turn}

theorem isPart_contentPart {d : KiroDocument} {readsPdf : Bool} : IsPart (contentPart d readsPdf) := by
  unfold contentPart
  dsimp only
  split
  case isTrue => exact .text
  case isFalse =>
    split
    case isTrue => exact .text
    case isFalse =>
      split
      case h_1 => split <;> exact .text
      case h_2 =>
        split
        case isTrue => exact .file
        case isFalse => exact .text
      case h_3 => exact .text

theorem isPart_imageContent {index : Nat} {img : KiroImage} :
    IsPart (imageContent ctx turn index img) := by
  unfold imageContent
  split
  case h_1 => exact .image
  case h_2 => exact .image
  case h_3 => exact .text

theorem isContent_formatUserContent {content : String} {images : List KiroImage}
    {documents : List KiroDocument} :
    IsContent .user (formatUserContent ctx turn content images documents) := by
  unfold formatUserContent
  split
  case isTrue => exact .str
  case isFalse =>
    dsimp only
    split
    case isFalse => exact .str
    case isTrue =>
      refine .parts rfl fun p hp => ?_
      rw [List.mem_append, List.mem_append] at hp
      rcases hp with (hp | hp) | hp
      case inl.inl =>
        have ⟨d, _, he⟩ := List.mem_map.mp hp
        exact he ▸ isPart_contentPart
      case inl.inr =>
        split at hp
        case isTrue => cases hp
        case isFalse =>
          rw [List.mem_singleton] at hp
          exact hp ▸ .text
      case inr =>
        have ⟨i, _, he⟩ := List.mem_mapIdx.mp hp
        exact he ▸ isPart_imageContent

end

section

variable {options : ProviderOptions} {model : String} {m : ChatMessage}

-- The messages that are sent for some of a request.
def sent (options : ProviderOptions) (model : String) (ms : List ChatMessage) :
    List (Speaker × List Json) :=
  Grouped.merge ((ms.filterMap (messageBlocks options model)).filter (·.2 ≠ []))

theorem sent_cons {g : Speaker × List Json} (hg : messageBlocks options model m = some g) :
    sent options model (m :: ms) =
      if g.2 = [] then sent options model ms else Grouped.push g (sent options model ms) := by
  unfold sent
  rw [List.filterMap_cons_some hg]
  split
  case isTrue h => simp [h]
  case isFalse h => rw [List.filter_cons_of_pos (by simpa using h), Grouped.merge_cons]

theorem resultId?_toolResultBlock {id : String} (h : m.toolCallId = some id) :
    resultId? (toolResultBlock m) = some id := by
  unfold toolResultBlock
  by_cases he : m.isError = some true
  case pos => simp [he, h, resultId?, blockType, Json.get?, Json.asStr?]
  case neg => simp [he, h, resultId?, blockType, Json.get?, Json.asStr?]

theorem useId?_toolUseBlock {c : ToolCallEntry} : useId? (toolUseBlock c) = some c.id := by
  simp [useId?, toolUseBlock, blockType, Json.get?, Json.asStr?]

theorem useId?_thinkingBlock {t : ThinkingBlock} : useId? (thinkingBlock t) = none := by
  simp [useId?, thinkingBlock, blockType, Json.get?, Json.asStr?]

theorem uses_assistantBlocks {role : Role} (h : IsContent role m.content) :
    uses (assistantBlocks options model m) = m.callIds := by
  have ht (t : Option ThinkingBlock) : uses (t.map thinkingBlock).toList = [] := by
    cases t
    case none => rfl
    case some => simp [uses, useId?_thinkingBlock]
  have hc : uses (contentBlocks m.content) = [] :=
    List.filterMap_eq_nil_iff.mpr fun b hb => (ordinary_contentBlocks h b hb).useId?
  have hu : uses (m.toolCalls.map toolUseBlock) = m.callIds := by
    simp [uses, List.filterMap_map, useId?_toolUseBlock, ChatMessage.callIds]
  simp only [uses] at ht hc hu ⊢
  rw [assistantBlocks, List.filterMap_append, List.filterMap_append, ht, hc, hu]
  rfl

theorem matched_sent_result {id : String} (hr : m.role = .tool) (hid : m.toolCallId = some id) :
    Matched pending (sent options model (m :: ms)) ↔
      id ∈ pending ∧ Matched (pending.erase id) (sent options model ms) := by
  have hg : messageBlocks options model m = some (.user, [toolResultBlock m]) := by
    simp [messageBlocks, hr]
  rw [sent_cons hg, if_neg (by simp), matched_push_result (resultId?_toolResultBlock hid)]

theorem matched_sent_user (hr : m.role = .user) (hn : m.toolCallId = none)
    (hc : IsContent .user m.content) (hp : pending = [] ∨ contentBlocks m.content ≠ []) :
    Matched pending (sent options model (m :: ms)) ↔
      pending = [] ∧ Matched [] (sent options model ms) := by
  have hg : messageBlocks options model m = some (.user, contentBlocks m.content) := by
    simp [messageBlocks, hr, hn]
  rw [sent_cons hg]
  split
  case isTrue he =>
    have hp := hp.resolve_right fun hn => hn he
    subst hp
    simp
  case isFalse he =>
    exact matched_push_user he fun b hb => (ordinary_contentBlocks hc b hb).resultId?

theorem matched_sent_assistant (hr : m.role = .assistant) (hc : IsContent .assistant m.content)
    (h : m.callIds = [] ∨ ∀ g ∈ (sent options model ms).head?, g.1 = .user) :
    Matched [] (sent options model (m :: ms)) ↔ Matched m.callIds (sent options model ms) := by
  have hg : messageBlocks options model m = some (.assistant, assistantBlocks options model m) := by
    simp [messageBlocks, hr]
  have hu : uses (assistantBlocks options model m) = m.callIds := uses_assistantBlocks hc
  rw [sent_cons hg]
  split
  case isTrue he =>
    have he : assistantBlocks options model m = [] := he
    rw [← hu, he]
    rfl
  case isFalse =>
    rw [← hu] at h ⊢
    rw [matched_push_assistant h]
    exact and_iff_right rfl

end

section

open ConversationMessage

variable {options : ProviderOptions} {model : String} {raw : List ConversationMessage}
variable {pending : List String}

-- The turns of a conversation, of content that can be sent.
def Sendable (m : ConversationMessage) : Prop := Turned m ∧ IsContent m.role m.content

theorem matched_sent_omitted {ms : List ChatMessage} :
    Matched pending (sent options model ((pending.map omitted).map (·.toChatMessage) ++ ms)) ↔
      Matched [] (sent options model ms) := by
  induction pending
  case nil => rfl
  case cons id pending hi =>
    rw [List.map_cons, List.map_cons, List.cons_append, matched_sent_result rfl rfl,
      List.erase_cons_head, hi]
    simp

theorem head_sent_user {m : ChatMessage} {ms : List ChatMessage} {g : Speaker × List Json}
    (hg : messageBlocks options model m = some g) (hu : g.1 = .user) (hn : g.2 ≠ []) :
    ∀ g ∈ (sent options model (m :: ms)).head?, g.1 = .user := by
  intro g' hg'
  have ⟨xs, gs', he⟩ := @Grouped.push_head_tag _ _ _ g (sent options model ms)
  rw [sent_cons hg, if_neg hn, he] at hg'
  cases hg'
  exact hu

theorem contentBlocks_orphaned (m : ConversationMessage) (h : IsContent .tool m.content) :
    contentBlocks m.orphaned.content ≠ [] ∧ IsContent .user m.orphaned.content := by
  cases hc : m.content
  case str s =>
    have he : m.orphaned.content = .str ("[Previous Tool Result]: " ++ s) := by
      simp [orphaned, hc]
    rw [he]
    exact ⟨by simp [contentBlocks], .str⟩
  all_goals
    rw [hc] at h
    cases h
  case arr hr _ => cases hr

-- What follows calls is the user's.
theorem head_sent_repairFrom (h : ∀ m ∈ raw, Sendable m) (hn : pending ≠ []) :
    ∀ g ∈ (sent options model ((repairFrom pending raw).map (·.toChatMessage))).head?,
      g.1 = .user := by
  have hom (ms : List ConversationMessage) :
      ∀ g ∈ (sent options model ((pending.map omitted ++ ms).map (·.toChatMessage))).head?,
        g.1 = .user := by
    cases pending
    case nil => exact absurd rfl hn
    case cons id pending => exact head_sent_user (m := (omitted id).toChatMessage) rfl rfl (by simp)
  cases raw
  case nil =>
    have h := hom []
    rwa [List.append_nil] at h
  case cons m raw =>
    have ⟨ht, hc⟩ := h m (by simp)
    cases ht
    case assistant hr _ =>
      simp only [repairFrom, hr]
      exact hom _
    case tool id hr hid _ =>
      simp only [repairFrom, hr, hid]
      split
      case isTrue =>
        have hg : messageBlocks options model m.toChatMessage =
            some (.user, [toolResultBlock m.toChatMessage]) := by
          simp [messageBlocks, toChatMessage, hr]
        exact head_sent_user hg rfl (by simp)
      case isFalse =>
        have ho := contentBlocks_orphaned m (hr ▸ hc)
        have hg : messageBlocks options model m.orphaned.toChatMessage =
            some (.user, contentBlocks m.orphaned.content) := rfl
        exact head_sent_user hg rfl ho.left
    case user hr hid _ =>
      simp only [repairFrom, hr, hid, Option.isNone_none, if_true]
      exact hom _

theorem matched_repairFrom (h : ∀ m ∈ raw, Sendable m) :
    Matched pending (sent options model ((repairFrom pending raw).map (·.toChatMessage))) ↔
      InOrder pending (raw.map (·.event)) := by
  induction raw generalizing pending
  case nil =>
    have ho := @matched_sent_omitted options model pending []
    rw [List.append_nil] at ho
    simp only [repairFrom, ho, List.map_nil, InOrder]
    simp [sent, Grouped.merge, Matched]
  case cons m raw hi =>
    have h' : ∀ m ∈ raw, Sendable m := fun m hm => h m (by simp [hm])
    have hi := fun pending => @hi pending h'
    obtain ⟨ht, hc⟩ := h m (by simp)
    cases ht
    case assistant hr hn =>
      have he : m.event = .calls m.callIds := by simp [event, hr]
      have hu : m.callIds = [] ∨ ∀ g ∈ (sent options model
          ((repairFrom m.callIds raw).map (·.toChatMessage))).head?, g.1 = .user := by
        by_cases hm : m.callIds = []
        case pos => exact .inl hm
        case neg => exact .inr (head_sent_repairFrom h' hm)
      simp only [repairFrom, hr, List.map_append, List.map_cons, matched_sent_omitted, he, InOrder]
      rw [matched_sent_assistant (m := m.toChatMessage) hr (hr ▸ hc) hu, ← hi]
      rfl
    case tool id hr hid hcalls =>
      have he : m.event = .result id := by simp [event, hr, hid]
      simp only [repairFrom, hr, hid, List.map_cons, he, InOrder]
      split
      case isTrue hp =>
        rw [List.map_cons, matched_sent_result (m := m.toChatMessage) hr hid, hi]
        simp [hp]
      case isFalse hp =>
        have ho := contentBlocks_orphaned m (hr ▸ hc)
        rw [List.map_cons, matched_sent_user (m := m.orphaned.toChatMessage) rfl rfl ho.right
          (.inr ho.left)]
        constructor
        case mp =>
          rintro ⟨hn, h⟩
          subst hn
          exact ⟨.inl rfl, (hi _).mp h⟩
        case mpr =>
          rintro ⟨hn, h⟩
          have hn := hn.resolve_right hp
          subst hn
          exact ⟨rfl, (hi _).mpr h⟩
    case user hr hid _ =>
      have he : m.event = .text := by simp [event, hr]
      simp only [repairFrom, hr, hid, Option.isNone_none, if_true, List.map_append, List.map_cons,
        matched_sent_omitted, he, InOrder]
      rw [matched_sent_user (m := m.toChatMessage) hr hid (hr ▸ hc) (.inl rfl), hi]
      exact and_iff_right rfl

end
end Translate
