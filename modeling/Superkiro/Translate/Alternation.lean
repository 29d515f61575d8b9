import Superkiro.Translate.WellFormed

namespace Translate

-- What stands for a user's turn that there isn't.
inductive Synthetic : List (Speaker × Json) → Prop
  | none  : Synthetic []
  | resume : Synthetic [(.user, textPart "(continue)")]
  | empty : Synthetic [(.user, textPart "")]

def System.blockList : System → List Json
  | .text _    => []
  | .blocks bs => bs

def Body.marks (body : Body) : Nat :=
  Translate.marks (body.tools.getD []) + Translate.marks ((body.system.map (·.blockList)).getD []) +
    messageMarks body.messages

-- The blocks of a request's messages, with their roles.
def requestBlocks (options : ProviderOptions) (req : ChatRequest) : List (Speaker × Json) :=
  Grouped.elements (req.messages.filterMap (messageBlocks options req.model))

-- A body that upstreams take.
structure WellFormed (options : ProviderOptions) (req : ChatRequest) (body : Body) : Prop where
  alternates : (body.messages.map (·.1)).IsChain (· ≠ ·)
  begins     : (body.messages.map (·.1)).head? = some .user
  ends       : (body.messages.map (·.1)).getLast? = some .user
  nonempty   : ∀ m ∈ body.messages, m.2 ≠ []
  complete   : ∃ before after, Synthetic before ∧ Synthetic after ∧
    (Grouped.elements body.messages).map (fun e => (e.1, unmark e.2)) =
      before ++ requestBlocks options req ++ after
  opens      : ∀ u after, body.messages = (.user, u) :: after → Answers u []
  answered   : ∀ before a u after, body.messages = before ++ (.assistant, a) :: (.user, u) :: after →
    Answers u (uses a)
  marks      : body.marks ≤ 4
  thinking   : ∀ m ∈ body.messages, ∀ b ∈ m.2, blockType b = some "thinking" →
    ∃ m' ∈ req.messages, ∃ t, m'.thinking = some t ∧ t.model = req.model ∧
      unmark b = thinkingBlock t

section

variable {pending : List String} {ms ms' : List (Speaker × List Json)}

-- What is matched one message after another is matched everywhere.
theorem matched_iff (ha : (ms.map (·.1)).IsChain (· ≠ ·))
    (he : ∀ r ∈ (ms.map (·.1)).getLast?, r = .user) :
    Matched pending ms ↔
      (∀ m ∈ ms.head?, m.1 = .user → Answers m.2 pending) ∧
      ((∀ m ∈ ms.head?, m.1 = .assistant) → pending = []) ∧
      ∀ before a u after, ms = before ++ (.assistant, a) :: (.user, u) :: after →
        Answers u (uses a) := by
  induction ms generalizing pending
  case nil => simp [Matched]
  case cons m ms hi =>
    obtain ⟨role, bs⟩ := m
    have ha' : (ms.map (·.1)).IsChain (· ≠ ·) := ha.tail
    have he' : ∀ r ∈ (ms.map (·.1)).getLast?, r = .user := by
      intro r hr
      apply he
      cases ms
      case nil => cases hr
      case cons => simpa [List.getLast?_cons] using hr
    cases role
    case user =>
      have hh : ∀ m ∈ ms.head?, m.1 = .assistant := by
        intro m hm
        cases ms
        case nil => cases hm
        case cons m' ms =>
          cases hm
          have hne := (List.isChain_cons_cons.mp ha).left
          cases h : m.1
          case user => exact absurd h.symm hne
          case assistant => rfl
      rw [Matched, hi ha' he']
      constructor
      case mp =>
        rintro ⟨h₁, h₂, _, h₃⟩
        refine ⟨by simpa using h₁, by simp, fun before a u after heq => ?_⟩
        cases before
        case nil => cases heq
        case cons =>
          rw [List.cons_append, List.cons.injEq] at heq
          exact h₃ _ _ _ _ heq.right
      case mpr =>
        rintro ⟨h₁, _, h₃⟩
        refine ⟨h₁ _ rfl rfl, fun m hm hu => ?_, fun _ => rfl, fun before a u after heq => ?_⟩
        · exact absurd (hu.symm.trans (hh m hm)) (by rintro ⟨⟩)
        · exact h₃ ((.user, bs) :: before) a u after (by rw [heq]; rfl)
    case assistant =>
      have hu : ∃ u after, ms = (.user, u) :: after := by
        cases ms
        case nil => exact absurd (he .assistant rfl) (by rintro ⟨⟩)
        case cons m ms =>
          obtain ⟨role, u⟩ := m
          have hne := (List.isChain_cons_cons.mp ha).left
          cases role
          case user => exact ⟨u, ms, rfl⟩
          case assistant => exact absurd rfl hne
      obtain ⟨u, after, hms⟩ := hu
      rw [Matched, hi ha' he']
      constructor
      case mp =>
        rintro ⟨hp, h₁, _, h₃⟩
        refine ⟨by simp, fun _ => hp, fun before a' u' after' heq => ?_⟩
        cases before
        case nil =>
          rw [List.nil_append, List.cons.injEq, Prod.mk.injEq] at heq
          rw [← heq.left.right]
          exact h₁ (.user, u') (by rw [heq.right]; rfl) rfl
        case cons =>
          rw [List.cons_append, List.cons.injEq] at heq
          exact h₃ _ _ _ _ heq.right
      case mpr =>
        rintro ⟨_, h₂, h₃⟩
        have hu := h₃ [] bs u after (by rw [hms]; rfl)
        refine ⟨h₂ (by simp), fun m hm _ => ?_, fun h => ?_, fun before a' u' after' heq => ?_⟩
        · rw [hms] at hm
          cases hm
          exact hu
        · exact absurd (h (.user, u) (by rw [hms]; rfl)) (by rintro ⟨⟩)
        · exact h₃ ((.assistant, bs) :: before) a' u' after' (by rw [heq]; rfl)

theorem answers_marked {bs bs' : List Json} (h : List.Forall₂ MarkOf bs bs') :
    Answers bs' pending ↔ Answers bs pending := by
  induction h generalizing pending
  case nil => rfl
  case cons b b' bs bs' hb _ hi =>
    have hr : resultId? b' = resultId? b := hb.resultId?
    cases hid : resultId? b
    case some id => rw [answers_cons_result hid, answers_cons_result (hr.trans hid), hi]
    case none =>
      have ho {b : Json} {bs : List Json} (h : resultId? b = none) :
          Answers (b :: bs) pending ↔ pending = [] ∧ Answers bs [] := by
        have hb : ∀ x ∈ [b], resultId? x = none := by simpa using h
        exact answers_of_no_result (List.cons_ne_nil b []) hb
      rw [ho hid, ho (hr.trans hid), hi]

theorem uses_marked {bs bs' : List Json} (h : List.Forall₂ MarkOf bs bs') : uses bs' = uses bs := by
  induction h
  case nil => rfl
  case cons hb _ hi =>
    simp only [uses] at hi ⊢
    rw [List.filterMap_cons, List.filterMap_cons, hb.useId?, hi]

theorem matched_marked (h : MarksOf ms ms') : Matched pending ms' ↔ Matched pending ms := by
  induction h generalizing pending
  case nil => rfl
  case cons m m' ms ms' hm _ hi =>
    obtain ⟨role, bs⟩ := m
    obtain ⟨role', bs'⟩ := m'
    have ⟨hr, hb⟩ := hm
    simp only at hr hb
    subst hr
    cases role'
    case user => rw [Matched, Matched, answers_marked hb, hi]
    case assistant => rw [Matched, Matched, uses_marked hb, hi]

theorem roles_marked (h : MarksOf ms ms') : ms'.map (·.1) = ms.map (·.1) := by
  induction h
  case nil => rfl
  case cons hm _ hi => rw [List.map_cons, List.map_cons, hm.left, hi]

theorem elements_marked (h : MarksOf ms ms') :
    (Grouped.elements ms').map (fun e => (e.1, unmark e.2)) =
      (Grouped.elements ms).map fun e => (e.1, unmark e.2) := by
  induction h
  case nil => rfl
  case cons m m' ms ms' hm _ hi =>
    have hb {bs bs' : List Json} (h : List.Forall₂ MarkOf bs bs') : bs'.map unmark = bs.map unmark := by
      induction h
      case nil => rfl
      case cons hb _ hi => rw [List.map_cons, List.map_cons, hb.unmark, hi]
    have hu (role : Speaker) (bs : List Json) :
        (bs.map (role, ·)).map (fun e => (e.1, unmark e.2)) = (bs.map unmark).map (role, ·) := by
      simp
    rw [Grouped.elements_cons, Grouped.elements_cons, List.map_append, List.map_append, hu, hu, hi,
      hb hm.right, hm.left]

-- A block with a mark is one without.
theorem mem_marked (h : MarksOf ms ms') (hm : m' ∈ ms') (hb : b' ∈ m'.2) :
    ∃ m ∈ ms, ∃ b ∈ m.2, MarkOf b b' := by
  induction h
  case nil => cases hm
  case cons m m'' ms ms' hmm _ hi =>
    cases hm
    case head =>
      have h := hmm.right
      refine ⟨m, by simp, ?_⟩
      generalize m.2 = bs at h
      generalize m'.2 = bs' at h hb
      induction h
      case nil => cases hb
      case cons hbb _ hi =>
        cases hb
        case head => exact ⟨_, by simp, hbb⟩
        case tail hb =>
          have ⟨b, hb, hm⟩ := hi hb
          exact ⟨b, by simp [hb], hm⟩
    case tail hm =>
      have ⟨m, hm, h⟩ := hi hm
      exact ⟨m, by simp [hm], h⟩

end

section

variable {options : ProviderOptions} {model : String} {pending : List String}
variable {ms : List (Speaker × List Json)}

theorem answers_text {text : String} : Answers [textPart text] pending ↔ pending = [] := by
  have hb : ∀ b ∈ [textPart text], resultId? b = none := by
    intro b hb
    rw [List.mem_singleton.mp hb]
    exact ordinary_text.resultId?
  have h : Answers ([textPart text] ++ []) pending ↔ pending = [] ∧ Answers [] [] :=
    answers_of_no_result (List.cons_ne_nil _ _) hb
  simpa using h

theorem matched_continued : Matched pending (ms ++ [continuation]) ↔ Matched pending ms := by
  induction ms generalizing pending
  case nil => simp [continuation, Matched, answers_text]
  case cons m ms hi =>
    obtain ⟨role, bs⟩ := m
    cases role
    case user => rw [List.cons_append, Matched, Matched, hi]
    case assistant => rw [List.cons_append, Matched, Matched, hi]

-- What a conversation is completed to.
structure Bracketed (ms ms' : List (Speaker × List Json)) : Prop where
  alternates : (ms'.map (·.1)).IsChain (· ≠ ·)
  begins     : (ms'.map (·.1)).head? = some .user
  ends       : (ms'.map (·.1)).getLast? = some .user
  nonempty   : ∀ m ∈ ms', m.2 ≠ []
  complete   : ∃ before after, Synthetic before ∧ Synthetic after ∧
    Grouped.elements ms' = before ++ Grouped.elements ms ++ after
  matched    : Matched [] ms' ↔ Matched [] ms

-- The user's turn comes first.
def opened (ms : List (Speaker × List Json)) : List (Speaker × List Json) :=
  match ms with
  | []                  => [(.user, [textPart ""])]
  | (.assistant, _) :: _ => continuation :: ms
  | (.user, _) :: _     => ms

structure Opened (ms ms' : List (Speaker × List Json)) : Prop where
  alternates : (ms'.map (·.1)).IsChain (· ≠ ·)
  begins     : (ms'.map (·.1)).head? = some .user
  nonempty   : ∀ m ∈ ms', m.2 ≠ []
  complete   : ∃ before, Synthetic before ∧ Grouped.elements ms' = before ++ Grouped.elements ms
  matched    : Matched [] ms' ↔ Matched [] ms

theorem opened_opens (ha : (ms.map (·.1)).IsChain (· ≠ ·)) (hn : ∀ m ∈ ms, m.2 ≠ []) :
    Opened ms (opened ms) := by
  unfold opened
  split
  case h_1 =>
    refine ⟨List.isChain_singleton _, rfl, by simp, ⟨_, .empty, rfl⟩, ?_⟩
    simp [Matched, answers_text]
  case h_2 bs ms =>
    refine ⟨List.isChain_cons_cons.mpr ⟨by rintro ⟨⟩, ha⟩, rfl, ?_, ⟨_, .resume, rfl⟩, ?_⟩
    · intro m hm
      cases hm
      case head => simp [continuation]
      case tail hm => exact hn m hm
    · rw [continuation, Matched, answers_text]
      exact and_iff_right rfl
  case h_3 => exact ⟨ha, rfl, hn, ⟨[], .none, rfl⟩, .rfl⟩

theorem bracketed_brackets (ha : (ms.map (·.1)).IsChain (· ≠ ·)) (hn : ∀ m ∈ ms, m.2 ≠ []) :
    Bracketed ms (bracketed ms) := by
  have h : Opened ms (opened ms) := opened_opens ha hn
  have hb : bracketed ms =
      if ((opened ms).getLast?).any (·.1 = .assistant) then opened ms ++ [continuation]
      else opened ms := rfl
  have hl (os : List (Speaker × List Json)) : (os.getLast?).any (·.1 = .assistant) ↔
      (os.map (·.1)).getLast? = some .assistant := by
    rw [List.getLast?_map]
    cases os.getLast? <;> simp
  have ⟨before, hbefore, he⟩ := h.complete
  rw [hb]
  generalize opened ms = os at h he
  split
  case isTrue hlast =>
    have hlast := (hl os).mp hlast
    constructor
    case alternates =>
      rw [List.map_append]
      refine List.isChain_append.mpr ⟨h.alternates, List.isChain_singleton _, ?_⟩
      intro r hr r' hr'
      rw [hlast] at hr
      cases hr
      cases hr'
      exact nofun
    case begins =>
      have hh := h.begins
      cases os
      case nil => cases hh
      case cons => exact hh
    case ends => simp [continuation]
    case nonempty =>
      intro m hm
      cases List.mem_append.mp hm
      case inl hm => exact h.nonempty m hm
      case inr hm =>
        rw [List.mem_singleton.mp hm]
        simp [continuation]
    case complete =>
      refine ⟨before, _, hbefore, .resume, ?_⟩
      rw [Grouped.elements, List.flatMap_append, ← Grouped.elements, he]
      rfl
    case matched => rw [matched_continued, h.matched]
  case isFalse hlast =>
    have hlast : (os.map (·.1)).getLast? ≠ some .assistant := mt (hl os).mpr hlast
    refine ⟨h.alternates, h.begins, ?_, h.nonempty, ⟨before, [], hbefore, .none, by simp [he]⟩,
      h.matched⟩
    cases hr : (os.map (·.1)).getLast?
    case none =>
      have hh := h.begins
      rw [List.getLast?_eq_none_iff.mp hr] at hh
      cases hh
    case some role =>
      cases role
      case user => rfl
      case assistant => exact absurd hr hlast

end

section

variable {options : ProviderOptions} {model : String} {ms : List ChatMessage} {m : ChatMessage}

theorem alternates_sent : ((sent options model ms).map (·.1)).IsChain (· ≠ ·) :=
  (List.isChain_map _).mpr Grouped.alternates_merge

theorem nonempty_sent : ∀ g ∈ sent options model ms, g.2 ≠ [] := by
  refine Grouped.forall_merge (P := fun g => g.2 ≠ []) ?_ fun _ _ _ h _ => by simp [h]
  intro g hg
  simpa using (List.mem_filter.mp hg).right

theorem elements_sent : Grouped.elements (sent options model ms) =
    Grouped.elements (ms.filterMap (messageBlocks options model)) := by
  rw [sent, Grouped.elements_merge]
  induction ms.filterMap (messageBlocks options model)
  case nil => rfl
  case cons g gs hi =>
    by_cases hg : g.2 = []
    case pos => rw [List.filter_cons_of_neg (by simp [hg]), hi, Grouped.elements_cons, hg]; rfl
    case neg =>
      rw [List.filter_cons_of_pos (by simp [hg]), Grouped.elements_cons, Grouped.elements_cons, hi]

-- Where a block comes from.
structure Block (model : String) (m : ChatMessage) (b : Json) : Prop where
  object   : b.isObject
  unmarked : isMarked b = false
  thinking : blockType b = some "thinking" →
    ∃ t, m.thinking = some t ∧ t.model = model ∧ b = thinkingBlock t

theorem Ordinary.block {b : Json} (h : Ordinary b) : Block model m b :=
  ⟨h.object, h.unmarked, fun ht => absurd ht (h.kind _ (by simp))⟩

theorem block_toolResult : Block model m (toolResultBlock m) := by
  unfold toolResultBlock
  by_cases he : m.isError = some true
  case pos => exact ⟨rfl, by simp [he, isMarked, Json.get?], by simp [he, blockType, Json.get?, Json.asStr?]⟩
  case neg => exact ⟨rfl, by simp [he, isMarked, Json.get?], by simp [he, blockType, Json.get?, Json.asStr?]⟩

theorem block_toolUse {c : ToolCallEntry} : Block model m (toolUseBlock c) :=
  ⟨rfl, rfl, by simp [toolUseBlock, blockType, Json.get?, Json.asStr?]⟩

theorem block_assistant {b : Json} (hc : IsContent m.role m.content)
    (hb : b ∈ assistantBlocks options model m) : Block model m b := by
  rw [assistantBlocks, List.mem_append, List.mem_append] at hb
  rcases hb with (hb | hb) | hb
  case inl.inl =>
    obtain ⟨t, ht, he⟩ := Option.map_eq_some_iff.mp (Option.mem_toList.mp hb)
    obtain ⟨hm, hf⟩ := Option.filter_eq_some_iff.mp ht
    simp only [Bool.and_eq_true, decide_eq_true_eq] at hf
    exact he ▸ ⟨rfl, rfl, fun _ => ⟨t, hm, hf.right, rfl⟩⟩
  case inl.inr => exact (ordinary_contentBlocks hc b hb).block
  case inr =>
    obtain ⟨c, _, he⟩ := List.mem_map.mp hb
    exact he ▸ block_toolUse

theorem block_messageBlocks {g : Speaker × List Json} {b : Json} (hc : IsContent m.role m.content)
    (hg : messageBlocks options model m = some g) (hb : b ∈ g.2) : Block model m b := by
  unfold messageBlocks at hg
  split at hg
  case h_1 => cases hg
  case h_2 =>
    cases hg
    exact block_assistant hc hb
  case h_3 =>
    cases hg
    rw [List.mem_singleton.mp hb]
    exact block_toolResult
  case h_4 =>
    split at hg
    case isTrue =>
      cases hg
      rw [List.mem_singleton.mp hb]
      exact block_toolResult
    case isFalse =>
      cases hg
      exact (ordinary_contentBlocks hc b hb).block

theorem mem_elements {gs : List (Speaker × List Json)} {b : Json} :
    (∃ r, (r, b) ∈ Grouped.elements gs) ↔ ∃ g ∈ gs, b ∈ g.2 := by
  simp only [Grouped.elements, List.mem_flatMap, List.mem_map, Prod.mk.injEq]
  constructor
  case mp =>
    rintro ⟨r, g, hg, b', hb', -, rfl⟩
    exact ⟨g, hg, hb'⟩
  case mpr => exact fun ⟨g, hg, hb⟩ => ⟨g.1, g, hg, b, hb, rfl, rfl⟩

-- Where the blocks of messages come from.
theorem block_sent {g : Speaker × List Json} {b : Json} (hc : ∀ m ∈ ms, IsContent m.role m.content)
    (hg : g ∈ sent options model ms) (hb : b ∈ g.2) : ∃ m ∈ ms, Block model m b := by
  have ⟨g, hg, hb⟩ := mem_elements.mp (elements_sent ▸ mem_elements.mpr ⟨g, hg, hb⟩)
  have ⟨m, hm, hg⟩ := List.mem_filterMap.mp hg
  exact ⟨m, hm, block_messageBlocks (hc m hm) hg hb⟩

end

section

open ConversationMessage

variable {raw : List ConversationMessage} {pending : List String}

theorem isContent_repairFrom (h : ∀ m ∈ raw, Sendable m) :
    ∀ m ∈ (repairFrom pending raw).map (·.toChatMessage), IsContent m.role m.content := by
  intro m hm
  have ⟨x, hx, he⟩ := List.mem_map.mp hm
  subst he
  rcases mem_repairFrom (fun m hm => (h m hm).left) hx with ⟨id, rfl⟩ | hx | ⟨m', hm', hr, rfl⟩
  case inl => exact .str
  case inr.inl => exact (h x hx).right
  case inr.inr => exact (contentBlocks_orphaned m' (hr ▸ (h m' hm').right)).right

-- The messages a request is translated to.
structure Messages (req : ChatRequest) (raw : List ConversationMessage) : Prop where
  sendable : ∀ m ∈ raw, Sendable m
  messages : ∃ prompt, req.messages =
    systemMessages prompt ++ (repairFrom [] raw).map (·.toChatMessage)

theorem Messages.isContent {req : ChatRequest} (h : Messages req raw) :
    ∀ m ∈ req.messages, IsContent m.role m.content := by
  intro m hm
  have ⟨prompt, he⟩ := h.messages
  rw [he, List.mem_append] at hm
  cases hm
  case inl hm =>
    unfold systemMessages at hm
    split at hm
    case h_1 => exact List.mem_singleton.mp hm ▸ .str
    case h_2 => cases hm
  case inr hm => exact isContent_repairFrom h.sendable m hm

theorem Messages.matched {req : ChatRequest} {options : ProviderOptions} (h : Messages req raw) :
    Matched [] (translateMessages options req) ↔ InOrder [] (raw.map (·.event)) := by
  have ⟨prompt, he⟩ := h.messages
  have hs : sent options req.model req.messages =
      sent options req.model ((repairFrom [] raw).map (·.toChatMessage)) := by
    rw [he]
    unfold systemMessages
    split <;> rfl
  have hb : Matched [] (translateMessages options req) ↔
      Matched [] (sent options req.model req.messages) :=
    (bracketed_brackets alternates_sent nonempty_sent).matched
  rw [hb, hs, matched_repairFrom h.sendable]

end

section

variable {options : ProviderOptions} {r : ToolRegistry} {t : Json}

-- The tools of a request.
inductive IsToolJson : Json → Prop
  | wrapped : IsToolJson (.obj [("toolSpecification", spec)])
  | direct  : IsToolJson (.obj [("description", d), ("inputSchema", s), ("name", n)])

theorem isToolJson_toJson (t : Tool) : IsToolJson t.toJson := by
  cases t
  case wrapped => exact .wrapped
  case direct => exact .direct

theorem isToolJson_processTool (h : IsToolJson t) : IsToolJson (processTool r t).1 := by
  cases h
  case wrapped => exact .wrapped
  case direct d s n =>
    have hs (v : Json) : (Json.obj [("description", d), ("inputSchema", s), ("name", n)]).set "name" v =
        .obj [("description", d), ("inputSchema", s), ("name", v)] := by
      have h₁ : ¬ "name" < "description" := by decide
      have h₂ : ¬ "name" < "inputSchema" := by decide
      simp [Json.set, Json.setField, h₁, h₂]
    cases hn : n.asStr?
    case none => simp [processTool, renameSpec, Json.get?, hn, IsToolJson.direct]
    case some => simp [processTool, renameSpec, Json.get?, hn, hs, IsToolJson.direct]

theorem isToolJson_processTools {tools : List Json} (h : ∀ t ∈ tools, IsToolJson t) :
    ∀ t ∈ (processToolsForProvider r tools).1, IsToolJson t := by
  induction tools generalizing r
  case nil => simp [processToolsForProvider]
  case cons tool tools hi =>
    intro t ht
    cases ht
    case head => exact isToolJson_processTool (h tool (by simp))
    case tail ht => exact hi (fun t ht => h t (by simp [ht])) t ht

theorem unmarked_normalizeTool (h : IsToolJson t) : isMarked (normalizeTool t) = false := by
  cases h
  case wrapped => rfl
  case direct => rfl

theorem marks_eq_zero {bs : List Json} (h : ∀ b ∈ bs, isMarked b = false) : marks bs = 0 :=
  List.countP_eq_zero.mpr fun b hb => by simp [h b hb]

theorem marks_normalizeTools {tools : List Json} (h : ∀ t ∈ tools, IsToolJson t) :
    marks ((normalizeTools options tools).getD []) = 0 := by
  have hn : ∀ t ∈ tools.map normalizeTool, isMarked t = false := by
    intro t ht
    have ⟨t', ht', he⟩ := List.mem_map.mp ht
    exact he ▸ unmarked_normalizeTool (h t' ht')
  apply marks_eq_zero
  unfold normalizeTools
  split
  case isTrue => simp
  case isFalse =>
    dsimp only [Option.getD_some]
    split
    case isFalse => exact hn
    case isTrue =>
      intro t ht
      have ⟨t', ht', he⟩ := List.mem_map.mp ht
      rw [← he, ← hn t' ht']
      split
      case isTrue ho => rw [isMarked, Json.get?_set (by decide) ho, isMarked]
      case isFalse => rfl

end

section

variable {options : ProviderOptions} {req : ChatRequest} {body : Body}
variable {raw : List ConversationMessage}

theorem brackets_translateMessages (options : ProviderOptions) (req : ChatRequest) :
    Bracketed (sent options req.model req.messages) (translateMessages options req) :=
  bracketed_brackets alternates_sent nonempty_sent

-- Blocks come from the messages, or stand for a turn there isn't.
theorem Messages.mem_blocks {g : Speaker × List Json} {b : Json} (h : Messages req raw)
    (hg : g ∈ translateMessages options req) (hb : b ∈ g.2) :
    (∃ text, b = textPart text) ∨ ∃ m ∈ req.messages, Block req.model m b := by
  have synthetic {es : List (Speaker × Json)} {r : Speaker} (hs : Synthetic es) (h : (r, b) ∈ es) :
      ∃ text, b = textPart text := by
    cases hs
    case none => cases h
    case resume => exact ⟨_, (Prod.mk.injEq .. ▸ List.mem_singleton.mp h).right⟩
    case empty => exact ⟨_, (Prod.mk.injEq .. ▸ List.mem_singleton.mp h).right⟩
  have ⟨before, after, hbefore, hafter, he⟩ :=
    (brackets_translateMessages options req).complete
  have ⟨r, hr⟩ := mem_elements.mpr ⟨g, hg, hb⟩
  rw [he, List.mem_append, List.mem_append] at hr
  rcases hr with (hr | hr) | hr
  case inl.inl => exact .inl (synthetic hbefore hr)
  case inl.inr =>
    have ⟨g, hg, hb⟩ := mem_elements.mp ⟨r, hr⟩
    exact .inr (block_sent h.isContent hg hb)
  case inr => exact .inl (synthetic hafter hr)

theorem Messages.plain {g : Speaker × List Json} {b : Json} (h : Messages req raw)
    (hg : g ∈ translateMessages options req) (hb : b ∈ g.2) : b.isObject ∧ isMarked b = false := by
  rcases h.mem_blocks hg hb with ⟨text, rfl⟩ | ⟨m, _, hm⟩
  case inl => exact ⟨rfl, rfl⟩
  case inr => exact ⟨hm.object, hm.unmarked⟩

theorem Messages.noMarks (h : Messages req raw) :
    messageMarks (translateMessages options req) = 0 := by
  apply marks_eq_zero
  intro b hb
  have ⟨g, hg, hb⟩ := List.mem_flatMap.mp hb
  exact (h.plain hg hb).right

theorem messageMarks_reverse (ms : List (Speaker × List Json)) :
    messageMarks ms.reverse = messageMarks ms :=
  ((List.reverse_perm ms).flatMap_right _).countP_eq _

theorem marks_marked (s : System) : marks s.marked.blockList ≤ marks s.blockList + 1 := by
  unfold System.marked
  split
  case h_1 =>
    split
    case isTrue => simp [System.blockList, marks]
    case isFalse => exact List.countP_le_length
  case h_2 => exact Nat.le_succ _

-- A body before its breakpoints.
structure Unmarked (options : ProviderOptions) (req : ChatRequest) (body : Body) : Prop where
  messages : body.messages = translateMessages options req
  tools    : body.tools = normalizeTools options req.tools
  system   : ∀ s ∈ body.system, s.blockList = []

theorem unmarked_translate (hb : translateRequestWith options req = .ok body) :
    ∃ body', Unmarked options req body' ∧ (body = body' ∨ body = addCacheBreakpoints body') := by
  simp only [translateRequestWith, Except.bind_eq_ok', Except.pure_eq_ok] at hb
  have ⟨_, _, hb⟩ := hb
  have hs : ∀ s ∈ (if systemText req.messages = "" then none
      else some (System.text (systemText req.messages))), s.blockList = [] := by
    intro s hs
    split at hs
    case isTrue => cases hs
    case isFalse => cases hs; rfl
  have pick (body' : Body) (hb : (if options.promptCache && readAgain body' then
      addCacheBreakpoints body' else body') = body) :
      body = body' ∨ body = addCacheBreakpoints body' := by
    split at hb
    case isTrue => exact .inr hb.symm
    case isFalse => exact .inl hb.symm
  exact ⟨_, ⟨rfl, rfl, hs⟩, pick _ hb⟩

theorem marks_breakpoints (body : Body) :
    (addCacheBreakpoints body).marks ≤ body.marks + 4 := by
  have ht : marks ((body.tools.map (modifyLast mark)).getD []) ≤ marks (body.tools.getD []) + 1 := by
    cases body.tools
    case none => simp [marks]
    case some => exact marks_modifyLast
  have hs : marks (((body.system.map (·.marked)).map (·.blockList)).getD []) ≤
      marks ((body.system.map (·.blockList)).getD []) + 1 := by
    cases body.system
    case none => simp [marks]
    case some s => exact marks_marked s
  have hm : messageMarks (markTurns 2 body.messages.reverse) ≤ messageMarks body.messages + 2 :=
    messageMarks_reverse body.messages ▸ messageMarks_markTurns
  simp only [Body.marks, addCacheBreakpoints, messageMarks_reverse]
  omega

-- A body has the messages that were translated, with a few marks.
theorem Messages.marked (h : Messages req raw) (ht : ∀ t ∈ req.tools, IsToolJson t)
    (hb : translateRequestWith options req = .ok body) :
    MarksOf (translateMessages options req) body.messages ∧ body.marks ≤ 4 := by
  have ⟨body', hu, hb⟩ := unmarked_translate hb
  have hmarks : body'.marks = 0 := by
    have hs : marks ((body'.system.map (·.blockList)).getD []) = 0 := by
      cases h : body'.system
      case none => rfl
      case some s =>
        rw [Option.map_some, Option.getD_some, hu.system s h]
        rfl
    rw [Body.marks, hu.messages, hu.tools, h.noMarks, marks_normalizeTools ht, hs]
  cases hb
  case inl hb =>
    subst hb
    exact ⟨hu.messages ▸ marksOf_refl _, by omega⟩
  case inr hb =>
    subst hb
    have ho : MarksOf (translateMessages options req).reverse
        (markTurns 2 (translateMessages options req).reverse) :=
      marksOf_markTurns fun m hm b hb => (h.plain (List.mem_reverse.mp hm) hb).left
    have hr := List.rel_reverse ho
    rw [List.reverse_reverse, ← hu.messages] at hr
    have := marks_breakpoints body'
    exact ⟨hu.messages ▸ hr, by omega⟩

theorem elements_plain {es : List (Speaker × Json)} (h : ∀ e ∈ es, isMarked e.2 = false) :
    es.map (fun e => (e.1, unmark e.2)) = es := by
  induction es
  case nil => rfl
  case cons e es hi =>
    rw [List.map_cons, hi fun e he => h e (by simp [he]), unmark_of_unmarked (h e (by simp))]

-- A body is well formed exactly when its calls are matched.
theorem Messages.wellFormed_iff (h : Messages req raw) (ht : ∀ t ∈ req.tools, IsToolJson t)
    (hb : translateRequestWith options req = .ok body) :
    WellFormed options req body ↔ Matched [] (translateMessages options req) := by
  have ⟨hm, hmarks⟩ := h.marked ht hb
  have hbr := brackets_translateMessages options req
  have hr : body.messages.map (·.1) = (translateMessages options req).map (·.1) := roles_marked hm
  have ha : (body.messages.map (·.1)).IsChain (· ≠ ·) := hr ▸ hbr.alternates
  have he : (body.messages.map (·.1)).getLast? = some .user := hr ▸ hbr.ends
  have hiff : Matched [] body.messages ↔ _ := matched_iff ha (by simp [he])
  rw [← matched_marked hm]
  constructor
  case mp =>
    intro hw
    refine hiff.mpr ⟨fun m hm hu => ?_, fun _ => rfl, hw.answered⟩
    obtain ⟨role, u⟩ := m
    cases hu
    cases hms : body.messages
    case nil => rw [hms] at hm; cases hm
    case cons m' ms =>
      rw [hms] at hm
      cases hm
      exact hw.opens u ms hms
  case mpr =>
    intro hmatched
    have ⟨hopens, _, hanswered⟩ := hiff.mp hmatched
    constructor
    case alternates => exact ha
    case begins => exact hr ▸ hbr.begins
    case ends => exact he
    case nonempty =>
      intro m hmem hn
      have hl {ms ms' : List (Speaker × List Json)} (hm : MarksOf ms ms') (hmem : m ∈ ms') :
          ∃ m' ∈ ms, m'.2 = [] := by
        induction hm
        case nil => cases hmem
        case cons m' m'' ms ms' hmm _ hi =>
          cases hmem
          case head =>
            have hf := hmm.right
            rw [hn] at hf
            exact ⟨m', by simp, List.forall₂_nil_right_iff.mp hf⟩
          case tail hmem =>
            have ⟨m', hm', h⟩ := hi hmem
            exact ⟨m', by simp [hm'], h⟩
      have ⟨m', hm', hn'⟩ := hl hm hmem
      exact hbr.nonempty m' hm' hn'
    case complete =>
      have ⟨before, after, hbefore, hafter, heq⟩ := hbr.complete
      refine ⟨before, after, hbefore, hafter, ?_⟩
      rw [elements_marked hm, elements_plain, heq, elements_sent]
      · rfl
      · intro e hmem
        have ⟨g, hg, hb⟩ := mem_elements.mp ⟨e.1, hmem⟩
        exact (h.plain hg hb).right
    case opens =>
      intro u after heq
      exact hopens (.user, u) (by rw [heq]; rfl) rfl
    case answered => exact hanswered
    case marks => exact hmarks
    case thinking =>
      intro m hmem b hb hty
      have ⟨m', hm', b', hb', hmark⟩ := mem_marked hm hmem hb
      have hty' : blockType b' = some "thinking" := hmark.blockType ▸ hty
      rcases h.mem_blocks hm' hb' with ⟨text, rfl⟩ | ⟨x, hx, hblock⟩
      case inl => exact absurd hty' (ordinary_text.kind _ (by simp))
      case inr =>
        have ⟨t, htm, hmodel, heq⟩ := hblock.thinking hty'
        refine ⟨x, hx, t, htm, hmodel, ?_⟩
        rw [hmark.unmark, heq]
        rfl

theorem reasoningFields_ok (reasoning : Reasoning) (effort : Option ReasoningEffort) :
    ∃ fields, reasoningFields reasoning effort 4096 = .ok fields := by
  cases effort
  case none =>
    cases reasoning
    case adaptive x s d => cases s <;> cases d <;> exact ⟨_, rfl⟩
    all_goals exact ⟨_, rfl⟩
  case some e =>
    cases reasoning
    case adaptive => exact ⟨_, rfl⟩
    all_goals cases e <;> exact ⟨_, rfl⟩

end

section

variable [Attachments] (ctx : TranslationContext) {r : ToolRegistry}

theorem sendable_rawMessages (req : GenerateAssistantResponseRequest) :
    ∀ m ∈ (rawMessages ctx r req).1, Sendable m := by
  have results (rs : List ToolResult) : ∀ m ∈ rs.map resultMessage, IsContent m.role m.content := by
    intro m hm
    have ⟨r, _, he⟩ := List.mem_map.mp hm
    exact he ▸ .str
  have user (m : UserInputMessage) (turn : Turn) :
      IsContent (userMessage ctx m turn).role (userMessage ctx m turn).content :=
    isContent_formatUserContent
  have history (h : List Message) (position : Nat) (r : ToolRegistry) :
      ∀ m ∈ (historyMessages ctx position r h).1, IsContent m.role m.content := by
    induction h generalizing position r
    case nil => simp [historyMessages]
    case cons m h hi =>
      intro x hx
      cases m
      case assistant m =>
        cases hx
        case head => exact .str
        case tail hx => exact hi _ _ x hx
      case user m =>
        simp only [historyMessages, List.mem_append] at hx
        rcases hx with (hx | hx) | hx
        case inl.inl => exact results _ x hx
        case inl.inr =>
          split at hx
          case isTrue => exact List.mem_singleton.mp hx ▸ user m _
          case isFalse => cases hx
        case inr => exact hi _ _ x hx
  intro m hm
  refine ⟨(raw_messages req).turned m hm, ?_⟩
  simp only [rawMessages, List.mem_append, List.mem_singleton] at hm
  rcases hm with (hm | hm) | hm
  case inl.inl => exact history _ _ _ m hm
  case inl.inr => exact results _ m hm
  case inr => exact hm ▸ user _ _

theorem messages_translate (req : GenerateAssistantResponseRequest) :
    ∃ r, Messages (translateKiroToChatRequest ctx req).1 (rawMessages ctx r req).1 :=
  ⟨_, sendable_rawMessages ctx req, req.systemPrompt, rfl⟩

theorem tools_translate (req : GenerateAssistantResponseRequest) :
    ∀ t ∈ (translateKiroToChatRequest ctx req).1.tools, IsToolJson t := by
  apply isToolJson_processTools
  intro t ht
  have ⟨tool, _, he⟩ := List.mem_map.mp ht
  exact he ▸ isToolJson_toJson tool

theorem matched_translate (req : GenerateAssistantResponseRequest) (options : ProviderOptions) :
    Matched [] (translateMessages options (translateKiroToChatRequest ctx req).1) ↔
      InOrder [] req.events := by
  have ⟨_, h⟩ := messages_translate ctx req
  rw [h.matched, (raw_messages req).events]

-- The default output is enough to think with.
theorem body_translate (req : GenerateAssistantResponseRequest) (options : ProviderOptions) :
    ∃ body, translateRequestWith options (translateKiroToChatRequest ctx req).1 = .ok body := by
  have ⟨fields, hf⟩ := reasoningFields_ok (family (translateKiroToChatRequest ctx req).1.model).reasoning
    (translateKiroToChatRequest ctx req).1.reasoningEffort
  have hmax : (translateKiroToChatRequest ctx req).1.maxTokens.getD 4096 = 4096 := rfl
  simp only [translateRequestWith, Except.bind_eq_ok', Except.pure_eq_ok, hmax, hf]
  exact ⟨_, fields, rfl, rfl⟩

end

end Translate
