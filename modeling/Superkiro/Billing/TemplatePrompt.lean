import Superkiro.Billing.TemplateOccurrences

namespace Billing
namespace Template

def Blank (s : List Char) : Prop := ∀ c ∈ s, Text.isWhitespace c

-- Neither end is whitespace.
structure Tidy (s : List Char) : Prop where
  head : ∀ c ∈ s.head?, ¬Text.isWhitespace c
  last : ∀ c ∈ s.getLast?, ¬Text.isWhitespace c

def KnownContext (context : List Char) : Prop :=
  ∃ family ∈ modelFamilies, ∃ version, validVersion version ∧
    (lines (trimmed context)).map trimmed =
      [sessionNotice, "The current model is ".toList ++ (family ++ version ++ ['.'])]

-- A session's context in its tags, that holds exactly the notice and a known model's line.
def SessionBlock (s : List Char) : Prop :=
  ∃ context, s = sessionTag ++ (context ++ sessionEnd) ∧ ¬sessionEnd <:+: context ∧
    KnownContext context

-- An environment in its tags, of which there are no more in it.
def EnvironmentBlock (s : List Char) : Prop :=
  ∃ body, s = contextTag ++ (body ++ contextEnd) ∧ ¬contextEnd <:+: body ∧
    ¬contextTag <:+: body ++ contextEnd

def Surrounded (block : List Char → Prop) (s : List Char) : Prop :=
  ∃ a b c, s = a ++ (b ++ c) ∧ Blank a ∧ block b ∧ Blank c

def Lead (s : List Char) : Prop := Blank s ∨ Surrounded SessionBlock s

def Trail (s : List Char) : Prop := Blank s ∨ Surrounded EnvironmentBlock s

-- No more is removed of a prompt than whitespace, a leading session context and a trailing
-- environment.
def Keeps (prompt : String) : Prop :=
  ∃ lead trail, prompt.toList = lead ++ userText prompt ++ trail ∧ Lead lead ∧ Trail trail

-- The last environment's tag of a prompt is closed at its end, and before that too.
def ClosedTwice (prompt : String) : Prop :=
  ∃ before inner more,
    withoutSession prompt.toList =
      before ++ contextTag ++ (inner ++ contextEnd ++ more ++ contextEnd) ∧
    ¬contextTag <:+: before ∧ ¬contextTag <:+: inner ++ contextEnd ++ more ++ contextEnd

section Trim

variable {s a b r x y : List Char}

theorem Blank.append (ha : Blank a) (hb : Blank b) : Blank (a ++ b) :=
  fun c hc => (List.mem_append.mp hc).elim (ha c) (hb c)

theorem trimStart_blank (h : Blank a) : Text.trimStart (a ++ s) = Text.trimStart s := by
  induction a
  case nil => rfl
  case cons c a hi =>
    have ⟨hc, ha⟩ := List.forall_mem_cons.mp h
    simp only [Text.trimStart] at hi ⊢
    rw [List.cons_append, List.dropWhile_cons_of_pos hc, hi ha]

theorem trimEnd_blank (h : Blank b) : Text.trimEnd (s ++ b) = Text.trimEnd s := by
  have hb : Blank b.reverse := fun c hc => h c <| List.mem_reverse.mp hc
  have ht := trimStart_blank (s := s.reverse) hb
  simp only [Text.trimStart] at ht
  simp only [Text.trimEnd, List.reverse_append, ht]

theorem trimStart_tidy (h : ∀ c ∈ s.head?, ¬Text.isWhitespace c) : Text.trimStart s = s := by
  cases s
  case nil => rfl
  case cons c s => exact List.dropWhile_cons_of_neg <| h c rfl

theorem trimEnd_tidy (h : ∀ c ∈ s.getLast?, ¬Text.isWhitespace c) : Text.trimEnd s = s := by
  have hr := trimStart_tidy (s := s.reverse) <| by simpa using h
  simp only [Text.trimStart] at hr
  rw [Text.trimEnd, hr, List.reverse_reverse]

theorem trimmed_surrounded (ha : Blank a) (hr : Tidy r) (hb : Blank b) :
    trimmed (a ++ (r ++ b)) = r := by
  rw [trimmed, trimStart_blank ha]
  by_cases hn : r = []
  case pos =>
    have hs : Text.trimStart b = [] := List.dropWhile_eq_nil_iff.mpr hb
    rw [hn, List.nil_append, hs]
    rfl
  case neg =>
    have hs : Text.trimStart (r ++ b) = r ++ b := by
      apply trimStart_tidy
      simpa [List.head?_append_of_ne_nil r hn] using hr.head
    rw [hs, trimEnd_blank hb, trimEnd_tidy hr.last]

theorem trimStart_spec (s : List Char) : ∃ a, s = a ++ Text.trimStart s ∧ Blank a ∧
    ∀ c ∈ (Text.trimStart s).head?, ¬Text.isWhitespace c := by
  refine ⟨s.takeWhile Text.isWhitespace, (List.takeWhile_append_dropWhile ..).symm, ?_, ?_⟩
  case refine_1 => exact fun c hc => List.mem_takeWhile_imp hc
  case refine_2 =>
    intro c hc
    have := List.head?_dropWhile_not Text.isWhitespace s
    simp only [Text.trimStart, Option.mem_def] at hc
    simpa [hc] using this

theorem trimEnd_spec (s : List Char) : ∃ b, s = Text.trimEnd s ++ b ∧ Blank b ∧
    ∀ c ∈ (Text.trimEnd s).getLast?, ¬Text.isWhitespace c := by
  have ⟨a, hs, ha, hh⟩ := trimStart_spec s.reverse
  have he : Text.trimEnd s = (Text.trimStart s.reverse).reverse := rfl
  refine ⟨a.reverse, ?_, fun c hc => ha c <| List.mem_reverse.mp hc, ?_⟩
  case refine_1 => simpa [he] using congrArg List.reverse hs
  case refine_2 => simpa [he] using hh

theorem trimmed_spec (s : List Char) :
    ∃ a b, s = a ++ (trimmed s ++ b) ∧ Blank a ∧ Blank b ∧ Tidy (trimmed s) := by
  have ⟨a, hs, ha, hh⟩ := trimStart_spec s
  have ⟨b, ht, hb, hl⟩ := trimEnd_spec (Text.trimStart s)
  refine ⟨a, b, by rw [trimmed, ← ht, ← hs], ha, hb, ?_, hl⟩
  intro c hc
  apply hh c
  rw [ht]
  exact List.mem_head?_append_of_mem_head? hc

end Trim

section Tags

theorem sessionEnd_unbordered : Search.Unbordered sessionEnd := by decide

theorem contextTag_unbordered : Search.Unbordered contextTag := by decide

theorem contextTag_visible : ∀ c ∈ contextTag, ¬Text.isWhitespace c := by
  have ht : contextTag = ['<', 'E', 'n', 'v', 'i', 'r', 'o', 'n', 'm', 'e', 'n', 't', 'C', 'o', 'n',
    't', 'e', 'x', 't', '>'] := rfl
  rw [ht]
  simp [Text.isWhitespace]

theorem contextTag_ne : contextTag ≠ [] := by decide

-- No end of an opening tag begins the closing one.
theorem contextEnd_apart : ∀ d < contextTag.length, ¬contextTag.drop d <+: contextEnd := by decide

variable {p before after s : List Char}

theorem contextEnd_suffix (h : contextEnd <:+ contextTag ++ s) : contextEnd <:+ s := by
  have ⟨x, he⟩ := h
  obtain ⟨m, hm, hs⟩ | ⟨m, hm, hs⟩ := List.append_eq_append_iff.mp he
  case inr => exact ⟨m, hs.symm⟩
  case inl =>
    by_cases hn : x.length < contextTag.length
    case neg =>
      have hl := congrArg List.length hm
      have hm0 : m = [] := List.length_eq_zero_iff.mp <| by
        rw [List.length_append] at hl
        omega
      exact ⟨[], by simp [hs, hm0]⟩
    case pos =>
      have hd : contextTag.drop x.length = m := by rw [hm, List.drop_left]
      exact (contextEnd_apart _ hn <| by rw [hd]; exact ⟨s, hs.symm⟩).elim

theorem matches_once : (Search.matchIndices contextTag (contextTag ++ s)).length = 1 ↔
    ¬contextTag <:+: s := by
  rw [Search.matchIndices, Search.matchesFrom_needle contextTag_ne, List.length_cons,
    Nat.add_eq_right, List.length_eq_zero_iff, Search.matchesFrom_nil contextTag_ne]

-- What is removed of a prompt's end is what follows its only opening tag, if that's closed there.
theorem withoutEnvironment_cases (p : List Char) :
    (∃ before body, p = before ++ contextTag ++ (body ++ contextEnd) ∧ ¬contextTag <:+: before ∧
      ¬contextTag <:+: body ++ contextEnd ∧ withoutEnvironment p = trimmed before) ∨
      withoutEnvironment p = p := by
  unfold withoutEnvironment
  split
  case h_2 => exact .inr rfl
  case h_1 before after hs =>
    split
    case isFalse => exact .inr rfl
    case isTrue h =>
      simp only [Bool.and_eq_true, Text.endsWith, List.isSuffixOf_iff_suffix,
        decide_eq_true_eq, matches_once] at h
      have ⟨body, hb⟩ := contextEnd_suffix h.left
      have hn := Search.not_infix_before contextTag_ne hs
      exact .inl ⟨before, body, hb ▸ Search.splitOnce_eq hs, hn, hb ▸ h.right, rfl⟩

theorem withoutEnvironment_closed {body : List Char} (hb : ¬contextTag <:+: before)
    (ha : ¬contextTag <:+: body ++ contextEnd) :
    withoutEnvironment (before ++ contextTag ++ (body ++ contextEnd)) = trimmed before := by
  have hs : contextEnd <:+ contextTag ++ (body ++ contextEnd) := ⟨contextTag ++ body, by simp⟩
  rw [withoutEnvironment, contextTag_unbordered.splitOnce hb]
  simp only [Text.endsWith, List.isSuffixOf_iff_suffix.mpr hs, matches_once.mpr ha, decide_true,
    Bool.and_self, if_true]

end Tags

section Session

variable {context s p x y a b d block rest : List Char}

theorem dropPrefix?_iff {l pre rest : List Char} :
    l.dropPrefix? pre = some rest ↔ l = pre ++ rest := by
  simp [List.dropPrefix?_eq_some_iff]

theorem dropSuffix?_iff {l suf rest : List Char} :
    l.dropSuffix? suf = some rest ↔ l = rest ++ suf := by
  simp [List.dropSuffix?_eq_some_iff]

theorem knownModel_iff {model : List Char} : knownModel model ↔
    ∃ family ∈ modelFamilies, ∃ version, validVersion version ∧ model = family ++ version := by
  simp only [knownModel, List.any_eq_true, List.mem_filterMap, dropPrefix?_iff]
  grind

theorem two_lines {ls : List (List Char)} {x y : List Char} :
    ls = [x, y] ↔ ls[0]? = some x ∧ ls[1]? = some y ∧ ls[2]? = none := by
  match ls with
  | []               => simp
  | [_]              => simp
  | [_, _]           => simp
  | _ :: _ :: _ :: _ => simp

theorem knownContext_iff : knownContext context ↔ KnownContext context := by
  unfold knownContext KnownContext
  extract_lets ls model
  have hm : model.any knownModel ↔ ∃ family ∈ modelFamilies, ∃ version, validVersion version ∧
      ls[1]? = some ("The current model is ".toList ++ (family ++ version ++ ['.'])) := by
    simp only [Option.any_eq_true, model, Option.bind_eq_some_iff, dropPrefix?_iff, dropSuffix?_iff,
      knownModel_iff]
    grind
  simp only [Bool.and_eq_true, decide_eq_true_eq, Option.isNone_iff_eq_none, hm, two_lines]
  constructor
  case mp =>
    rintro ⟨⟨hn, family, hf, version, hv, hl⟩, he⟩
    exact ⟨family, hf, version, hv, hn, hl, he⟩
  case mpr =>
    rintro ⟨family, hf, version, hv, hn, hl, he⟩
    exact ⟨⟨hn, family, hf, version, hv, hl⟩, he⟩

-- A prompt without its session's context: what follows a known one, or all of it.
theorem withoutSession_cases (s : List Char) :
    (∃ context rest, trimmed s = sessionTag ++ (context ++ sessionEnd) ++ rest ∧
      SessionBlock (sessionTag ++ (context ++ sessionEnd)) ∧ withoutSession s = trimmed rest) ∨
      withoutSession s = trimmed s := by
  unfold withoutSession
  extract_lets p
  split
  case h_2 => exact .inr rfl
  case h_1 context rest hs =>
    split
    case isFalse => exact .inr rfl
    case isTrue hk =>
      have ⟨inner, hp, hs⟩ := Option.bind_eq_some_iff.mp hs
      have hn := Search.not_infix_before (by decide) hs
      refine .inl ⟨context, rest, ?_, ⟨context, rfl, hn, knownContext_iff.mp hk⟩, rfl⟩
      have hp : trimmed s = sessionTag ++ inner := dropPrefix?_iff.mp hp
      rw [hp, Search.splitOnce_eq hs]
      simp

theorem sessionTag_visible : ∀ c ∈ sessionTag.head?, ¬Text.isWhitespace c := by
  have hs : sessionTag.head? = some '<' := rfl
  simp [hs, Text.isWhitespace]

theorem sessionEnd_visible : ∀ c ∈ sessionEnd.getLast?, ¬Text.isWhitespace c := by
  have hs : sessionEnd.getLast? = some '>' := rfl
  simp [hs, Text.isWhitespace]

theorem SessionBlock.tidy (h : SessionBlock block) : Tidy block ∧ block ≠ [] := by
  have ⟨context, hb, _⟩ := h
  have hs : sessionTag ≠ [] := by decide
  have he : sessionEnd ≠ [] := by decide
  subst hb
  refine ⟨⟨?_, ?_⟩, by simp [hs]⟩
  case refine_1 =>
    rw [List.head?_append_of_ne_nil _ hs]
    exact sessionTag_visible
  case refine_2 =>
    rw [List.getLast?_append_of_ne_nil _ (by simp [he]), List.getLast?_append_of_ne_nil _ he]
    exact sessionEnd_visible

theorem Tidy.append (hx : Tidy x) (hy : Tidy y) (hn : x ≠ []) (hm : y ≠ []) :
    Tidy (x ++ (b ++ y)) where
  head := by
    rw [List.head?_append_of_ne_nil _ hn]
    exact hx.head
  last := by
    rw [List.getLast?_append_of_ne_nil _ (by simp [hm]), List.getLast?_append_of_ne_nil _ hm]
    exact hy.last

theorem withoutSession_known (hb : SessionBlock block) (hs : trimmed s = block ++ rest) :
    withoutSession s = trimmed rest := by
  have ⟨context, hblock, hn, hk⟩ := hb
  have hp : (trimmed s).dropPrefix? sessionTag = some (context ++ sessionEnd ++ rest) :=
    dropPrefix?_iff.mpr <| by simp [hs, hblock]
  rw [withoutSession]
  simp only [hp, Option.bind_some, sessionEnd_unbordered.splitOnce hn, knownContext_iff.mpr hk,
    if_true]

theorem withoutSession_block (ha : Blank a) (hb : SessionBlock block) (hc : Blank b)
    (ht : Tidy p) (hd : Blank d) : withoutSession (a ++ (block ++ (b ++ p)) ++ d) = p := by
  have ⟨hblock, hn⟩ := hb.tidy
  by_cases hp : p = []
  case pos =>
    subst hp
    have hs : trimmed (a ++ (block ++ (b ++ [])) ++ d) = block := by
      have hs : a ++ (block ++ (b ++ [])) ++ d = a ++ (block ++ (b ++ d)) := by simp
      rw [hs, trimmed_surrounded ha hblock (hc.append hd)]
    exact withoutSession_known hb <| hs.trans (List.append_nil _).symm
  case neg =>
    have hs : trimmed (a ++ (block ++ (b ++ p)) ++ d) = block ++ (b ++ p) := by
      rw [List.append_assoc, trimmed_surrounded ha (hblock.append ht hn hp) hd]
    have hr : trimmed (b ++ (p ++ [])) = p := trimmed_surrounded hc ht nofun
    rw [withoutSession_known hb hs]
    simpa using hr

theorem withoutSession_spec (s : List Char) :
    ∃ lead trail, s = lead ++ (withoutSession s ++ trail) ∧ Lead lead ∧ Blank trail ∧
      Tidy (withoutSession s) := by
  have ⟨a, b, hs, ha, hb, ht⟩ := trimmed_spec s
  obtain ⟨context, rest, hp, hk, hw⟩ | hw := withoutSession_cases s
  case inr => exact ⟨a, b, hw ▸ hs, .inl ha, hb, hw ▸ ht⟩
  case inl =>
    have ⟨c, d, hr, hc, hd, ht⟩ := trimmed_spec rest
    refine ⟨a ++ (_ ++ c), d ++ b, ?_, .inr ⟨a, _, c, rfl, ha, hk, hc⟩, hd.append hb, hw ▸ ht⟩
    rw [hw]
    conv => lhs; rw [hs, hp, hr]
    simp

theorem withoutSession_infix (s : List Char) : withoutSession s <:+: trimmed s := by
  obtain ⟨context, rest, hp, _, hw⟩ | hw := withoutSession_cases s
  case inr => exact hw ▸ List.infix_rfl
  case inl =>
    have ⟨c, d, hr, _⟩ := trimmed_spec rest
    rw [hw, hp]
    conv => rhs; rw [hr]
    exact ⟨sessionTag ++ (context ++ sessionEnd) ++ c, d, by simp⟩

end Session

section Kept

variable {prompt : String} {lead trail b : List Char}

theorem Lead.append (h : Lead lead) (hb : Blank b) : Lead (lead ++ b) := by
  obtain h | ⟨x, block, y, he, hx, hk, hy⟩ := h
  case inl => exact .inl <| h.append hb
  case inr => exact .inr ⟨x, block, y ++ b, by simp [he], hx, hk, hy.append hb⟩

theorem contextEnd_visible (body : List Char) :
    ∀ c ∈ (body ++ contextEnd).getLast?, ¬Text.isWhitespace c := by
  have he : contextEnd ≠ [] := by decide
  have hs : contextEnd.getLast? = some '>' := rfl
  rw [List.getLast?_append_of_ne_nil _ he, hs]
  simp [Text.isWhitespace]

theorem trimEnd_closed (body : List Char) (hb : Blank b) :
    Text.trimEnd (body ++ contextEnd ++ b) = body ++ contextEnd := by
  rw [trimEnd_blank hb, trimEnd_tidy (contextEnd_visible body)]

-- Where nothing follows what is kept, that's all of the prompt without its session's context.
theorem withoutSession_kept (ht : Tidy r) (hl : Lead lead) (hb : Blank trail) :
    withoutSession (lead ++ r ++ trail) <:+: r := by
  obtain hl | ⟨x, block, y, rfl, hx, hk, hy⟩ := hl
  case inl =>
    have hs := trimmed_surrounded hl ht hb
    rw [← List.append_assoc] at hs
    have hw := withoutSession_infix (lead ++ r ++ trail)
    rwa [hs] at hw
  case inr =>
    have hw := withoutSession_block hx hk hy ht hb
    have he : x ++ (block ++ y) ++ r ++ trail = x ++ (block ++ (y ++ r)) ++ trail := by simp
    rw [he, hw]

theorem not_closedTwice (h : Keeps prompt) : ¬ClosedTwice prompt := by
  intro ⟨before, inner, more, hp, hb, ha⟩
  have ⟨lead, trail, hs, hl, ht⟩ := h
  have hu : userText prompt = trimmed before := by
    rw [userText, hp, withoutEnvironment_closed hb ha]
  have ⟨x, y, hbefore, _, _, htidy⟩ := trimmed_spec before
  rw [hu] at hs
  obtain ht | ⟨a, block, c, htrail, _, ⟨body, hblock, hbody, hmore⟩, hc⟩ := ht
  case inl =>
    have hw := withoutSession_kept htidy hl ht
    rw [← hs, hp] at hw
    have hr : trimmed before <:+: before := ⟨x, y, by simp [← hbefore]⟩
    exact hb <| List.IsInfix.trans ⟨before, _, rfl⟩ <| hw.trans hr
  case inr =>
    have ⟨lead', trail', hs', _, ht', _⟩ := withoutSession_spec prompt.toList
    have he : (lead ++ trimmed before ++ a) ++ contextTag ++ (body ++ contextEnd ++ c) =
        (lead' ++ before) ++ contextTag ++
          (inner ++ contextEnd ++ more ++ contextEnd ++ trail') := by
      rw [hp, hs] at hs'
      rw [htrail, hblock] at hs'
      simpa using hs'
    have hn {s b : List Char} (h : ¬contextTag <:+: s) (hb : Blank b) : ¬contextTag <:+: s ++ b :=
      fun hi => h <| Search.infix_of_append_right contextTag_ne contextTag_visible hb hi
    have ⟨_, he⟩ := contextTag_unbordered.last_unique he (hn hmore hc) (hn ha ht')
    have he := congrArg Text.trimEnd he
    rw [trimEnd_closed _ hc, trimEnd_closed _ ht'] at he
    have he := List.append_cancel_right he
    exact hbody ⟨inner, more, he.symm⟩

theorem keeps_of_closed (h : ¬ClosedTwice prompt) : Keeps prompt := by
  have ⟨lead, trail, hs, hl, ht, _⟩ := withoutSession_spec prompt.toList
  obtain ⟨before, body, hp, hb, ha, hw⟩ | hw :=
    withoutEnvironment_cases (withoutSession prompt.toList)
  case inr =>
    refine ⟨lead, trail, ?_, hl, .inl ht⟩
    rw [userText, hw, List.append_assoc, ← hs]
  case inl =>
    have ⟨c, d, hbefore, hc, hd, _⟩ := trimmed_spec before
    refine ⟨lead ++ c, d ++ ((contextTag ++ (body ++ contextEnd)) ++ trail), ?_, hl.append hc,
      .inr ⟨d, _, trail, rfl, hd, ⟨body, rfl, ?_, ha⟩, ht⟩⟩
    case refine_1 =>
      rw [userText, hw]
      conv => lhs; rw [hs, hp, hbefore]
      simp
    case refine_2 =>
      rintro ⟨inner, more, hi⟩
      exact h ⟨before, inner, more, by rw [hi, hp], hb, by rwa [hi]⟩

-- No user text is removed from exactly the prompts whose last environment is closed once.
theorem keeps_iff : Keeps prompt ↔ ¬ClosedTwice prompt := ⟨not_closedTwice, keeps_of_closed⟩

end Kept

end Template
open Template

-- The matcher finds every occurrence of exactly the terms that don't begin with their last words,
-- so that such a term refuses a template wherever it's excluded and stands in the prompt. No user
-- text is removed from exactly the prompts whose last environment is closed once.
theorem template_occurrences [MatcherHost] (term prompt : String)
    (h : ∀ c ∈ normalized term.toList, c.toNat < 128) :
    ((∀ text : String, contains (normalized text.toList) term ↔
      Stands (normalized term.toList) (normalized text.toList)) ↔
        ¬Overlaps (normalized term.toList)) ∧
      (¬Overlaps (normalized term.toList) →
        ∀ (rule : ResponseTemplateRule) (intent : ResponseTemplateIntent) (model : String),
          rule.matchMode = "intent" → rule.intent = some intent → term ∈ intent.exclude →
            Stands (normalized term.toList) (normalized (userText prompt)) →
              (previewTemplateMatch rule prompt model).matched = false) ∧
      (Keeps prompt ↔ ¬ClosedTwice prompt) :=
  ⟨contains_stands_iff h, fun ho _ _ _ hm hi ht hs => excluded_refused hm hi ht <| hs.contains h ho,
    keeps_iff⟩

section Ascii

variable {c : Char}

theorem alphanumeric_nat : Text.isAsciiAlphanumeric c ↔ (48 ≤ c.toNat ∧ c.toNat ≤ 57) ∨
    (97 ≤ c.toNat ∧ c.toNat ≤ 122) ∨ (65 ≤ c.toNat ∧ c.toNat ≤ 90) := by
  simp only [Text.isAsciiAlphanumeric, Char.le_def, UInt32.le_iff_toNat_le, Bool.or_eq_true,
    Bool.and_eq_true, decide_eq_true_eq, or_assoc]
  rfl

theorem alphanumeric_visible (h : Text.isAsciiAlphanumeric c) : Text.isWhitespace c = false := by
  have h := alphanumeric_nat.mp h
  rw [Bool.eq_false_iff]
  simp only [Text.isWhitespace, ne_eq, Bool.or_eq_true, Bool.and_eq_true, decide_eq_true_eq,
    beq_iff_eq]
  omega

theorem lowerAscii_lowered (c : Char) :
    Text.lowerAscii (Text.lowerAscii c) = Text.lowerAscii c := by
  have hu (d : Char) : ('A' ≤ d ∧ d ≤ 'Z') ↔ 65 ≤ d.toNat ∧ d.toNat ≤ 90 := by
    simp only [Char.le_def, UInt32.le_iff_toNat_le]
    rfl
  unfold Text.lowerAscii
  simp only [Bool.and_eq_true, decide_eq_true_eq, hu]
  split
  case isFalse => rfl
  case isTrue h =>
    have hn : (Char.ofNat (c.toNat + 32)).toNat = c.toNat + 32 := by
      rw [Char.toNat_ofNat, if_pos]
      exact .inl <| by omega
    rw [hn, if_neg (by omega)]

-- What matching takes from the standard library, for texts in ASCII.
@[reducible]
def asciiHost : MatcherHost where
  isAlphanumeric              := Text.isAsciiAlphanumeric
  rulesBytes _                := 0
  receiptBytes _              := 0
  toLowercase c               := [Text.lowerAscii c]
  textToLowercase s           := s.map Text.lowerAscii
  alphanumeric_ascii _ _      := rfl
  alphanumeric_space _ h      := alphanumeric_visible h
  toLowercase_ascii _ _       := rfl
  toLowercase_lowered c _ h _ := by rw [List.mem_singleton.mp h, lowerAscii_lowered]

end Ascii

theorem template_occurrences_once :
    ((∀ text : String, @contains asciiHost (@normalized asciiHost text.toList) "ab" ↔
      Stands (@normalized asciiHost "ab".toList) (@normalized asciiHost text.toList)) ↔
        ¬Overlaps (@normalized asciiHost "ab".toList)) ∧ Keeps "make it" := by
  have hn : @normalized asciiHost "ab".toList = ['a', 'b'] := by decide
  have ha : ∀ c ∈ @normalized asciiHost "ab".toList, c.toNat < 128 := by
    rw [hn]
    simp
  have ⟨hc, _, hk⟩ := @template_occurrences asciiHost "ab" "make it" ha
  refine ⟨hc, hk.mpr ?_⟩
  intro ⟨before, inner, more, hp, _⟩
  have hl := congrArg List.length hp
  have hw : (withoutSession "make it".toList).length = 7 := by decide
  have ht : contextTag.length = 20 := rfl
  simp only [List.length_append, hw, ht] at hl
  omega

-- A term's second occurrence is hidden by one that isn't whole words, and what follows an
-- environment by another closing tag.
theorem template_occurrences_missed :
    (Stands (@normalized asciiHost "ab ab".toList) (@normalized asciiHost "xab ab ab".toList) ∧
      @contains asciiHost (@normalized asciiHost "xab ab ab".toList) "ab ab" = false) ∧
    (userText "make it<EnvironmentContext></EnvironmentContext>, or not</EnvironmentContext>" =
        "make it".toList ∧
      ¬Keeps
        "make it<EnvironmentContext></EnvironmentContext>, or not</EnvironmentContext>") := by
  refine ⟨⟨⟨by decide, "xab ".toList, [], by decide, by decide⟩, by decide⟩, by decide, ?_⟩
  intro hk
  exact not_closedTwice hk
    ⟨"make it".toList, [], ", or not".toList, by decide, Search.splitOnce_none.mp (by decide),
      Search.splitOnce_none.mp (by decide)⟩

end Billing
