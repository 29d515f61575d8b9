import Superkiro.Translate.ToProvider

namespace Translate

-- Every call is answered at once, by one message, and nothing else is.
inductive Paired : List ChatMessage → Prop
  | nil   : Paired []
  | other {m : ChatMessage} : m.role ≠ .tool → m.callIds = [] → Paired ms → Paired (m :: ms)
  | calls {m : ChatMessage} {results ms : List ChatMessage} : m.role = .assistant →
    m.callIds ≠ [] → (∀ r ∈ results, r.role = .tool) →
    (results.map (·.toolCallId)).Perm (m.callIds.map some) → Paired ms →
    Paired (m :: (results ++ ms))

-- What a conversation is for the pairs of calls and results in it.
inductive Event
  | calls (ids : List String)
  | result (id : String)
  | text

-- What is said in a conversation.
inductive Said
  | user (text : String)
  | assistant (text : String)
  | result (r : ToolResult)

section

def UserInputMessage.events (m : UserInputMessage) : List Event :=
  m.toolResults.map (.result ·.toolUseId)

def UserInputMessage.said (m : UserInputMessage) : List Said :=
  m.toolResults.map .result

def Message.events : Message → List Event
  | .assistant m => [.calls (m.toolUses.map (·.toolUseId))]
  | .user m      => m.events ++ if hasContent m then [.text] else []

def Message.said : Message → List Said
  | .assistant m => [.assistant m.content]
  | .user m      => m.said ++ if hasContent m then [.user m.content] else []

end

namespace GenerateAssistantResponseRequest

variable (req : GenerateAssistantResponseRequest)

def events : List Event :=
  req.conversationState.history.flatMap (·.events) ++
    (req.conversationState.currentMessage.events ++ [.text])

def said : List Said :=
  req.conversationState.history.flatMap (·.said) ++
    (req.conversationState.currentMessage.said ++
      [.user req.conversationState.currentMessage.content])

-- A result that comes while some of an assistant's calls are open answers one of them.
def Orderly : Prop :=
  ∀ before ids results id after,
    req.events = before ++ .calls ids :: (results.map .result ++ .result id :: after) →
    ids.diff results = [] ∨ id ∈ ids.diff results

end GenerateAssistantResponseRequest

-- Whether a text can be read in a message's content.
def mentions (text : String) : Json → Prop
  | .str s     => text.toList <:+: s.toList
  | .arr parts => text = "" ∨ textPart text ∈ parts
  | _          => False

def Said.Carried (m : ChatMessage) : Said → Prop
  | .user text      => m.role = .user ∧ mentions text m.content
  | .assistant text => m.role = .assistant ∧ m.content = .str text
  | .result r       => (m.role = .tool ∨ m.role = .user) ∧
    ∀ b ∈ r.content, mentions (blockText b) m.content

-- Messages that say what was said, in its order, and otherwise only that calls failed.
inductive Conveys : List Said → List ChatMessage → Prop
  | nil    : Conveys [] []
  | said   : s.Carried m → Conveys ss ms → Conveys (s :: ss) (m :: ms)
  | failed {m : ChatMessage} : m.role = .tool → m.isError = some true → Conveys ss ms →
    Conveys ss (m :: ms)

-- Messages that providers accept for a request.
structure Accepted (req : GenerateAssistantResponseRequest) (messages : List ChatMessage) :
    Prop where
  paired  : Paired messages
  conveys : ∃ system ms, messages = system ++ ms ∧ (∀ m ∈ system, m.role = .system) ∧
    Conveys req.said ms

-- The calls in a conversation are answered one after another, some being open before.
def Answering (pending : List String) : List ChatMessage → Prop
  | []      => pending = []
  | m :: ms =>
    if m.role = .tool then
      ∃ id, m.toolCallId = some id ∧ id ∈ pending ∧ Answering (pending.erase id) ms
    else pending = [] ∧ Answering m.callIds ms

theorem Answering.append_results {results ms : List ChatMessage}
    (ht : ∀ r ∈ results, r.role = .tool)
    (hp : (results.map (·.toolCallId)).Perm (pending.map some)) (h : Answering [] ms) :
    Answering pending (results ++ ms) := by
  induction results generalizing pending
  case nil =>
    have hp : pending = [] := by simpa using hp.symm.eq_nil
    exact hp ▸ h
  case cons r results hi =>
    have hr : r.role = .tool := ht r (by simp)
    have hm : r.toolCallId ∈ pending.map some := hp.subset (by simp)
    have ⟨id, hid, he⟩ := List.mem_map.mp hm
    rw [List.cons_append, Answering, if_pos hr]
    refine ⟨id, he.symm, hid, hi (fun r hr => ht r (by simp [hr])) ?_⟩
    have hc := (List.perm_cons_erase hid).map some
    simp only [List.map_cons, ← he] at hp hc
    exact (hp.trans hc).cons_inv

theorem Paired.answering (h : Paired ms) : Answering [] ms := by
  induction h
  case nil => rfl
  case other hr hc _ hi =>
    rw [Answering, if_neg hr, hc]
    exact ⟨rfl, hi⟩
  case calls ha _ ht hp _ hi =>
    rw [Answering, if_neg (by simp [ha])]
    exact ⟨rfl, hi.append_results ht hp⟩

-- Only assistants call tools.
def Calling (ms : List ChatMessage) : Prop := ∀ m ∈ ms, m.role ≠ .assistant → m.callIds = []

theorem Answering.split (hc : Calling ms) (h : Answering pending ms) :
    ∃ results rest, ms = results ++ rest ∧ (∀ r ∈ results, r.role = .tool) ∧
      (results.map (·.toolCallId)).Perm (pending.map some) ∧ Paired rest := by
  induction ms generalizing pending
  case nil =>
    rw [Answering] at h
    exact ⟨[], [], rfl, by simp, by simp [h], .nil⟩
  case cons m ms hi =>
    have hc' : Calling ms := fun m hm => hc m (by simp [hm])
    rw [Answering] at h
    split at h
    case isTrue ht =>
      have ⟨id, hid, hm, h⟩ := h
      have ⟨results, rest, he, htr, hp, hr⟩ := hi hc' h
      refine ⟨m :: results, rest, by simp [he], by simpa [ht] using htr, ?_, hr⟩
      have hx := (List.perm_cons_erase hm).map some
      rw [List.map_cons, hid]
      exact (hp.cons _).trans hx.symm
    case isFalse ht =>
      have ⟨hp, h⟩ := h
      have ⟨results, rest, he, htr, hpr, hr⟩ := hi hc' h
      refine ⟨[], m :: ms, rfl, by simp, by simp [hp], ?_⟩
      by_cases hn : m.callIds = []
      case pos =>
        rw [hn, List.map_nil] at hpr
        have hn' : results = [] := List.map_eq_nil_iff.mp hpr.eq_nil
        exact .other ht hn (by simpa [he, hn'] using hr)
      case neg =>
        have ha : m.role = .assistant := by
          by_contra ha
          exact hn (hc m (by simp) ha)
        exact he ▸ .calls ha hn htr hpr hr

theorem paired_iff (hc : Calling ms) : Paired ms ↔ Answering [] ms := by
  constructor
  case mp => exact Paired.answering
  case mpr =>
    intro h
    have ⟨results, rest, he, _, hp, hr⟩ := h.split hc
    have hn : results = [] := List.map_eq_nil_iff.mp hp.eq_nil
    rwa [he, hn]

-- The same for the events of a conversation, where results that come while nothing is open are
-- no answers.
def InOrder (pending : List String) : List Event → Prop
  | []                => True
  | .calls ids :: es  => InOrder ids es
  | .text :: es       => InOrder [] es
  | .result id :: es  => (pending = [] ∨ id ∈ pending) ∧ InOrder (pending.erase id) es

theorem inOrder_iff : InOrder pending es ↔
    (∀ results id after, es = results.map .result ++ .result id :: after →
      pending.diff results = [] ∨ id ∈ pending.diff results) ∧
    ∀ before ids results id after,
      es = before ++ .calls ids :: (results.map .result ++ .result id :: after) →
      ids.diff results = [] ∨ id ∈ ids.diff results := by
  induction es generalizing pending
  case nil => simp [InOrder]
  case cons e es hi =>
    cases e
    case calls ids =>
      rw [InOrder, hi]
      constructor
      case mp =>
        intro ⟨h₁, h₂⟩
        refine ⟨fun results id after he => ?_, fun before ids' results id after he => ?_⟩
        · cases results <;> cases he
        · cases before
          case nil =>
            cases he
            exact h₁ _ _ _ rfl
          case cons =>
            rw [List.cons_append, List.cons.injEq] at he
            exact h₂ _ _ _ _ _ he.right
      case mpr =>
        intro ⟨_, h⟩
        refine ⟨fun results id after he => ?_, fun before ids' results id after he => ?_⟩
        · exact h [] ids results id after (by rw [he]; rfl)
        · exact h (.calls ids :: before) ids' results id after (by rw [he]; rfl)
    case text =>
      rw [InOrder, hi]
      constructor
      case mp =>
        intro ⟨_, h₂⟩
        refine ⟨fun results id after he => ?_, fun before ids' results id after he => ?_⟩
        · cases results <;> cases he
        · cases before
          case nil => cases he
          case cons =>
            rw [List.cons_append, List.cons.injEq] at he
            exact h₂ _ _ _ _ _ he.right
      case mpr =>
        intro ⟨_, h⟩
        refine ⟨fun results id after he => by simp, fun before ids' results id after he => ?_⟩
        exact h (.text :: before) ids' results id after (by rw [he]; rfl)
    case result id =>
      rw [InOrder, hi]
      constructor
      case mp =>
        intro ⟨h₀, h₁, h₂⟩
        refine ⟨fun results id' after he => ?_, fun before ids' results id' after he => ?_⟩
        · cases results
          case nil =>
            cases he
            exact h₀
          case cons =>
            cases he
            rw [List.diff_cons]
            exact h₁ _ _ _ rfl
        · cases before
          case nil => cases he
          case cons =>
            rw [List.cons_append, List.cons.injEq] at he
            exact h₂ _ _ _ _ _ he.right
      case mpr =>
        intro ⟨h₁, h₂⟩
        refine ⟨h₁ [] id es rfl, fun results id' after he => ?_,
          fun before ids' results id' after he => ?_⟩
        · have := h₁ (id :: results) id' after (by rw [he]; rfl)
          rwa [List.diff_cons] at this
        · exact h₂ (.result id :: before) ids' results id' after (by rw [he]; rfl)

end Translate
