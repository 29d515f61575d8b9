import Superkiro.Billing.TemplateMatcher

namespace List

variable {α : Type*} {p : α → Bool} {s piece : List α}

-- The parts of a list between the elements that satisfy `p` have none of those.
theorem of_mem_splitOnP (h : piece ∈ s.splitOnP p) : ∀ c ∈ piece, c ∈ s ∧ p c = false := by
  induction s generalizing piece
  case nil =>
    rw [splitOnP_nil, mem_singleton] at h
    simp [h]
  case cons d s hi =>
    rw [splitOnP_cons_eq_if_modifyHead] at h
    split at h
    case isTrue hd =>
      obtain rfl | h := mem_cons.mp h
      · nofun
      · exact fun c hc => ⟨mem_cons_of_mem _ (hi h c hc).left, (hi h c hc).right⟩
    case isFalse hd =>
      obtain ⟨first, rest, hr⟩ := exists_cons_of_ne_nil (splitOnP_ne_nil p s)
      rw [hr, modifyHead_cons] at h
      intro c hc
      obtain rfl | h := mem_cons.mp h
      · obtain rfl | hc := mem_cons.mp hc
        · exact ⟨mem_cons_self, Bool.eq_false_iff.mpr hd⟩
        · have ⟨hs, hp⟩ := hi (hr ▸ mem_cons_self) c hc
          exact ⟨mem_cons_of_mem _ hs, hp⟩
      · have ⟨hs, hp⟩ := hi (hr ▸ mem_cons_of_mem _ h) c hc
        exact ⟨mem_cons_of_mem _ hs, hp⟩

theorem splitOnP_congr {q : α → Bool} (h : ∀ c ∈ s, p c = q c) : s.splitOnP p = s.splitOnP q := by
  induction s
  case nil => rfl
  case cons d s hi =>
    have ⟨hd, hs⟩ := forall_mem_cons.mp h
    simp only [splitOnP_cons_eq_if_modifyHead, hd, hi hs]

theorem mem_intercalate_singleton {x c : α} {parts : List (List α)}
    (h : c ∈ [x].intercalate parts) : c = x ∨ ∃ part ∈ parts, c ∈ part := by
  induction parts
  case nil => simp at h
  case cons part parts hi =>
    cases parts
    case nil => exact .inr ⟨part, mem_cons_self, by simpa using h⟩
    case cons next parts =>
      rw [intercalate_cons_cons, mem_append, mem_append, mem_singleton] at h
      obtain (h | h) | h := h
      · exact .inr ⟨part, mem_cons_self, h⟩
      · exact .inl h
      · obtain h | ⟨p, hp, hc⟩ := hi h
        · exact .inl h
        · exact .inr ⟨p, mem_cons_of_mem _ hp, hc⟩

end List

namespace Billing
namespace Template

open TemplateHost MatcherHost

-- A term is in a text as whole words. An empty term isn't in any.
def Stands (t s : List Char) : Prop :=
  t ≠ [] ∧ ∃ before after, s = before ++ t ++ after ∧ bounded before after

-- A term begins with some of its last words.
def Overlaps (t : List Char) : Prop := ∃ u v, t = u ++ ' ' :: v ∧ v ≠ [] ∧ v <+: t

-- A character that normalizing leaves as it is.
structure Plain (c : Char) : Prop where
  ascii   : c.toNat < 128
  lowered : Text.lowerAscii c = c
  word    : c = ' ' ∨ Text.isAsciiAlphanumeric c

variable [MatcherHost] {s t u v : List Char} {c : Char}

theorem folded_word (h : c ∈ folded s) : c = ' ' ∨ isAlphanumeric c ∧ ∃ d, c ∈ toLowercase d := by
  have ⟨e, he, hc⟩ := List.mem_map.mp h
  have ⟨d, _, hd⟩ := List.mem_flatMap.mp he
  split at hc
  case isFalse => exact .inl hc.symm
  case isTrue ha => exact .inr ⟨hc ▸ ha, d, hc ▸ hd⟩

theorem folded_words : words (folded s) = ((folded s).splitOn ' ').filter (· ≠ []) := by
  rw [words, List.splitOn_eq_splitOnP]
  congr 1
  apply List.splitOnP_congr
  intro c hc
  obtain rfl | ⟨ha, _⟩ := folded_word hc
  · rfl
  · have hs := alphanumeric_space c ha
    have hn : c ≠ ' ' := fun he => by simp [he, Text.isWhitespace] at hs
    rw [hs]
    exact (beq_eq_false_iff_ne.mpr hn).symm

theorem mem_words (h : piece ∈ words (folded s)) :
    piece ≠ [] ∧ ∀ c ∈ piece, c ∈ folded s ∧ c ≠ ' ' := by
  rw [folded_words, List.mem_filter] at h
  have ⟨h, hn⟩ := h
  refine ⟨of_decide_eq_true hn, fun c hc => ?_⟩
  have ⟨hs, hp⟩ := List.of_mem_splitOnP h c hc
  exact ⟨hs, beq_eq_false_iff_ne.mp hp⟩

theorem normalized_plain (h : ∀ c ∈ normalized s, c.toNat < 128) :
    ∀ c ∈ normalized s, Plain c := by
  intro c hc
  have ha := h c hc
  obtain rfl | ⟨piece, hp, hc⟩ := List.mem_intercalate_singleton hc
  · exact ⟨by decide, by decide, .inl rfl⟩
  · have ⟨hf, _⟩ := (mem_words hp).right c hc
    obtain rfl | ⟨hw, d, hd⟩ := folded_word hf
    · exact ⟨by decide, by decide, .inl rfl⟩
    · exact ⟨ha, toLowercase_lowered d c hd ha, .inr <| alphanumeric_ascii c ha ▸ hw⟩

theorem normalized_split (h : normalized s ≠ []) : [] ∉ (normalized s).splitOn ' ' := by
  have hn : words (folded s) ≠ [] := fun hn => h <| by rw [normalized, hn]; rfl
  rw [normalized, List.splitOn_intercalate ' ' _ hn]
  case _ => exact fun hm => (mem_words hm).left rfl
  case _ => exact fun piece hp hc => ((mem_words hp).right _ hc).right rfl

theorem folded_plain (h : ∀ c ∈ s, Plain c) : folded s = s := by
  induction s
  case nil => rfl
  case cons c s hi =>
    have ⟨hc, hs⟩ := List.forall_mem_cons.mp h
    have hw : halfWidth c = c := by
      have := hc.ascii
      rw [halfWidth, if_neg]
      simp only [Bool.and_eq_true, decide_eq_true_eq]
      omega
    have ha := alphanumeric_ascii c hc.ascii
    have hl := toLowercase_ascii c hc.ascii
    rw [hc.lowered] at hl
    have he : (if isAlphanumeric c then c else ' ') = c := by
      obtain rfl | hw := hc.word
      · split <;> rfl
      · rw [ha, hw, if_pos rfl]
    have hi := hi hs
    simp only [folded] at hi
    simp [folded, hw, hl, he, hi]

-- Words of lower-case letters and digits with single spaces between them are normal.
theorem normalized_self (h : ∀ c ∈ s, Plain c) (hs : [] ∉ s.splitOn ' ') : normalized s = s := by
  have hf := folded_plain h
  have hw := folded_words (s := s)
  rw [hf] at hw
  have hn : (s.splitOn ' ').filter (· ≠ []) = s.splitOn ' ' := by
    apply List.filter_eq_self.mpr
    intro piece hp
    exact decide_eq_true fun he => hs <| he ▸ hp
  rw [normalized, hf, hw, hn, List.intercalate_splitOn]

section Contains

variable {term : String} {text : List Char}

theorem contains_iff (h : ∀ c ∈ normalized term.toList, c.toNat < 128) :
    contains text term ↔ normalized term.toList ≠ [] ∧
      ∃ before after, (before, after) ∈ Search.matchIndices (normalized term.toList) text ∧
        bounded before after := by
  have ha : (normalized term.toList).all isAscii :=
    List.all_eq_true.mpr fun c hc => decide_eq_true (h c hc)
  rw [contains]
  by_cases hn : normalized term.toList = [] <;> simp [hn, ha]

theorem Stands.of_contains (h : ∀ c ∈ normalized term.toList, c.toNat < 128)
    (hc : contains text term) : Stands (normalized term.toList) text := by
  have ⟨hn, before, after, hm, hb⟩ := (contains_iff h).mp hc
  exact ⟨hn, before, after, Search.matchIndices_sound hm, hb⟩

-- Where a term's beginning isn't one of its ends, what is found first hides no other occurrence.
theorem Stands.contains (h : ∀ c ∈ normalized term.toList, c.toNat < 128)
    (ho : ¬Overlaps (normalized term.toList)) (hs : Stands (normalized term.toList) text) :
    contains text term := by
  have ⟨hn, before, after, hs, hb⟩ := hs
  rw [contains_iff h]
  obtain hm | ⟨x, y, m, v, _, ht, hx, hm, hv, hp⟩ := Search.matchIndices_complete hn hs
  case inl => exact ⟨hn, before, after, hm, hb⟩
  case inr =>
    obtain ⟨u, c, rfl⟩ := List.eq_nil_or_concat m |>.resolve_left hm
    have hw : Plain c := normalized_plain h c <| by simp [ht]
    have hc : Text.isAsciiAlphanumeric c = false := by
      simp only [bounded, hx, List.concat_eq_append, ← List.append_assoc, List.getLast?_concat,
        Option.any_some, Bool.and_eq_true, Bool.not_eq_true'] at hb
      exact hb.left
    obtain rfl | hw := hw.word
    case inl => exact (ho ⟨u, v, by simpa using ht, hv, hp⟩).elim
    case inr => simp [hc] at hw

omit [MatcherHost] in
theorem exists_head_ne (t : List Char) : ∃ c, Plain c ∧ Text.isAsciiAlphanumeric c ∧ c ≠ ' ' ∧
    t.head? ≠ some c := by
  have hx : Plain 'x' := ⟨by decide, by decide, .inr (by decide)⟩
  have hy : Plain 'y' := ⟨by decide, by decide, .inr (by decide)⟩
  by_cases h : t.head? = some 'x'
  case pos => exact ⟨'y', hy, by decide, by decide, by simp [h]⟩
  case neg => exact ⟨'x', hx, by decide, by decide, h⟩

omit [MatcherHost] in
-- What is found of a term that begins with its last words, where those stand twice.
theorem matchIndices_overlap (ht : t = u ++ ' ' :: v) (hv : v ≠ []) (hp : v <+: t)
    (hc : t.head? ≠ some c) :
    ∃ rest, Search.matchIndices t (c :: u ++ ' ' :: t) = [([c], rest)] := by
  have ⟨rest, hr⟩ := hp
  have hn : t ≠ [] := by simp [ht]
  have he : u ++ ' ' :: t = t ++ rest := by
    conv => lhs; rw [← hr]
    simp [ht]
  have hl : ¬t <:+: rest := by
    intro hi
    have hi := hi.length_le
    have hr := congrArg List.length hr
    have hv := List.length_pos_of_ne_nil hv
    rw [List.length_append] at hr
    omega
  have hc : ¬t <+: c :: (u ++ ' ' :: t) := by
    intro hp
    cases t
    case nil => exact hn rfl
    case cons d t => exact hc <| by rw [(List.cons_prefix_cons.mp hp).left]; rfl
  refine ⟨rest, ?_⟩
  rw [Search.matchIndices, List.cons_append, Search.matchesFrom, if_neg hc, he,
    Search.matchesFrom_needle hn, (Search.matchesFrom_nil hn).mpr hl]
  rfl

-- A term that begins with its last words is missed where it follows its first ones.
theorem Overlaps.missed (h : ∀ c ∈ normalized term.toList, c.toNat < 128)
    (ho : Overlaps (normalized term.toList)) :
    ∃ text : String, Stands (normalized term.toList) (normalized text.toList) ∧
      contains (normalized text.toList) term = false := by
  have ⟨u, v, ht, hv, hp⟩ := ho
  have ⟨c, hc, hw, hs, hh⟩ := exists_head_ne (normalized term.toList)
  have hn : normalized term.toList ≠ [] := by simp [ht]
  have ⟨rest, hm⟩ := matchIndices_overlap ht hv hp hh
  let text : String := .ofList (c :: u ++ ' ' :: normalized term.toList)
  have htext : text.toList = c :: u ++ ' ' :: normalized term.toList := String.toList_ofList
  have hself : normalized text.toList = text.toList := by
    rw [htext]
    apply normalized_self
    case h =>
      have hall := normalized_plain h
      have hu : ∀ d ∈ u, Plain d := fun d hd => hall d <| by simp [ht, hd]
      simp only [List.forall_mem_append, List.forall_mem_cons]
      exact ⟨⟨hc, hu⟩, ⟨by decide, by decide, .inl rfl⟩, hall⟩
    case hs =>
      have hsplit := normalized_split hn
      have hu : [] ∉ u.splitOn ' ' := fun hu => hsplit <| by
        rw [ht, List.splitOn_append_cons_self]
        exact List.mem_append_left _ hu
      rw [List.splitOn_append_cons_self, List.splitOn_cons_eq_if_modifyHead,
        if_neg (by simpa using hs)]
      obtain ⟨first, more, hr⟩ := List.exists_cons_of_ne_nil (List.splitOn_ne_nil ' ' u)
      rw [hr] at hu ⊢
      simp only [List.modifyHead_cons, List.mem_append, List.mem_cons, not_or] at hu ⊢
      exact ⟨⟨nofun, hu.right⟩, hsplit⟩
  have hb : bounded (c :: u ++ [' ']) [] := by
    rw [bounded, List.getLast?_concat]
    decide
  refine ⟨text, ⟨hn, c :: u ++ [' '], [], ?_, hb⟩, ?_⟩
  case refine_1 =>
    rw [hself, htext]
    simp
  case refine_2 =>
    rw [Bool.eq_false_iff]
    intro hcontains
    have ⟨_, before, after, hf, hb⟩ := (contains_iff h).mp hcontains
    rw [hself, htext, hm, List.mem_singleton] at hf
    cases hf
    simp [bounded, hw] at hb

-- What is found is what stands in the text, for exactly the terms that don't begin with their last
-- words.
theorem contains_stands_iff (h : ∀ c ∈ normalized term.toList, c.toNat < 128) :
    (∀ text : String, contains (normalized text.toList) term ↔
      Stands (normalized term.toList) (normalized text.toList)) ↔
        ¬Overlaps (normalized term.toList) := by
  constructor
  case mp =>
    intro hc ho
    have ⟨text, hs, hf⟩ := ho.missed h
    simp [(hc text).mpr hs] at hf
  case mpr => exact fun ho text => ⟨.of_contains h, fun hs => hs.contains h ho⟩

end Contains

end Template

section Exclude

open Template

variable [MatcherHost] {rule : ResponseTemplateRule} {intent : ResponseTemplateIntent}

theorem excluded_refused {term prompt model : String} (hm : rule.matchMode = "intent")
    (hi : rule.intent = some intent) (ht : term ∈ intent.exclude)
    (hc : contains (normalized (userText prompt)) term) :
    (previewTemplateMatch rule prompt model).matched = false := by
  have ha : intent.exclude.any (contains (normalized (userText prompt))) :=
    List.any_eq_true.mpr ⟨term, ht, hc⟩
  have hf : (rule.intent.filter fun _ => decide (rule.matchMode = "intent")) = some intent := by
    simp [hi, hm]
  have he : rule.matchMode ≠ "exact" := by simp [hm]
  have hn : rule.matchMode ≠ "contains" := by simp [hm]
  simp only [previewTemplateMatch, hf, if_neg he, if_neg hn, if_pos ha]
  repeat' split
  all_goals rfl

end Exclude

end Billing
