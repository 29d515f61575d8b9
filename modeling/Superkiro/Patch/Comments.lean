import Superkiro.Patch.Settings

-- The tokens of a settings file with and without its comments.
namespace Patch.Jsonc

def isSpace (c : Char) : Bool := c = ' ' || c = '\t' || c = '\n' || c = '\r'

def isMark (c : Char) : Bool :=
  c = '\x7b' || c = '\x7d' || c = '[' || c = ']' || c = ',' || c = ':'

def isOpening (c : Char) : Bool := c = '\x7b' || c = '['

def isClosing (c : Char) : Bool := c = '\x7d' || c = ']'

-- A string as it's written between its quotes, or whatever else stands between spaces and marks.
inductive Token
  | string (cs : List Char)
  | mark (c : Char)
  | word (cs : List Char)
  deriving DecidableEq

-- Where a text is being read: in a string, or in a word that may be empty.
inductive Mode
  | plain (word : List Char)
  | string (cs : List Char)

def flush (word : List Char) : List Token := if word = [] then [] else [.word word]

-- The tokens of strict JSON, if all strings end.
def tokens : Mode → List Char → Option (List Token)
  | .plain w, []                => some (flush w)
  | .plain w, c :: cs           =>
    if c = '"' then (tokens (.string []) cs).map (flush w ++ ·)
    else if isSpace c then (tokens (.plain []) cs).map (flush w ++ ·)
    else if isMark c then (tokens (.plain []) cs).map (flush w ++ .mark c :: ·)
    else tokens (.plain (w ++ [c])) cs
  | .string _, []               => none
  | .string s, '\\' :: c :: cs  => tokens (.string (s ++ ['\\', c])) cs
  | .string s, c :: cs          =>
    if c = '"' then (tokens (.plain []) cs).map (.string s :: ·) else tokens (.string (s ++ [c])) cs

-- The same where comments stand for spaces.
inductive CommentMode
  | text (mode : Mode)
  | line
  | block

def commented : CommentMode → List Char → Option (List Token)
  | .text (.plain w), []               => some (flush w)
  | .text (.plain w), '/' :: '/' :: cs => (commented .line cs).map (flush w ++ ·)
  | .text (.plain w), '/' :: '*' :: cs => (commented .block cs).map (flush w ++ ·)
  | .text (.plain w), c :: cs          =>
    if c = '"' then (commented (.text (.string [])) cs).map (flush w ++ ·)
    else if isSpace c then (commented (.text (.plain [])) cs).map (flush w ++ ·)
    else if isMark c then (commented (.text (.plain [])) cs).map (flush w ++ .mark c :: ·)
    else commented (.text (.plain (w ++ [c]))) cs
  | .text (.string _), []              => none
  | .text (.string s), '\\' :: c :: cs => commented (.text (.string (s ++ ['\\', c]))) cs
  | .text (.string s), c :: cs         =>
    if c = '"' then (commented (.text (.plain [])) cs).map (.string s :: ·)
    else commented (.text (.string (s ++ [c]))) cs
  | .line, []                          => some []
  | .line, '\n' :: cs                  => commented (.text (.plain [])) cs
  | .line, _ :: cs                     => commented .line cs
  | .block, []                         => none
  | .block, '*' :: '/' :: cs           => commented (.text (.plain [])) cs
  | .block, _ :: cs                    => commented .block cs

-- Where the comments of a text are looked at: after a word or not, and after a block comment that
-- follows a word or not.
inductive Scan
  | plain (word comment : Bool)
  | string
  | line
  | block (word : Bool)

-- Whether all block comments end and none of them stands between two words.
def wellCommented : Scan → List Char → Bool
  | .plain _ _, []               => true
  | .plain _ _, '/' :: '/' :: cs => wellCommented .line cs
  | .plain w _, '/' :: '*' :: cs => wellCommented (.block w) cs
  | .plain w b, c :: cs          =>
    if c = '"' then wellCommented .string cs
    else if isSpace c || isMark c then wellCommented (.plain false false) cs
    else !(w && b) && wellCommented (.plain true false) cs
  | .string, []                  => true
  | .string, '\\' :: _ :: cs     => wellCommented .string cs
  | .string, c :: cs             =>
    if c = '"' then wellCommented (.plain false false) cs else wellCommented .string cs
  | .line, []                    => true
  | .line, '\n' :: cs            => wellCommented (.plain false false) cs
  | .line, _ :: cs               => wellCommented .line cs
  | .block _, []                 => false
  | .block w, '*' :: '/' :: cs   => wellCommented (.plain w w) cs
  | .block w, _ :: cs            => wellCommented (.block w) cs

variable {w s cs : List Char} {c : Char}

theorem flush_append (xs : List Token) : flush [] ++ xs = xs := rfl

theorem map_flush (o : Option (List Token)) : o.map (flush [] ++ ·) = o := by
  cases o <;> rfl

-- What the code's reader of comments gives to the strict one, and what's read of comments.
def Agree : Lexing → List Char → Prop
  | .plain, cs  => ∀ w b, wellCommented (.plain (w ≠ []) b) cs →
    tokens (.plain w) (stripComments .plain cs) =
      if b then (commented (.text (.plain [])) cs).map (flush w ++ ·)
      else commented (.text (.plain w)) cs
  | .string, cs => ∀ s, wellCommented .string cs →
    tokens (.string s) (stripComments .string cs) = commented (.text (.string s)) cs
  | .line, cs   => ∀ w, wellCommented .line cs → tokens (.plain w) (stripComments .line cs) =
    (commented .line cs).map (flush w ++ ·)
  | .block, cs  => ∀ w : List Char, wellCommented (.block (w ≠ [])) cs →
    tokens (.plain w) (stripComments .block cs) = (commented .block cs).map (flush w ++ ·)

-- No comment starts with a character and what follows it.
structure Textual (c : Char) (cs : List Char) : Prop where
  line  : ∀ rest, c = '/' → cs = '/' :: rest → False
  block : ∀ rest, c = '/' → cs = '*' :: rest → False

theorem textual_of_ne (h : c ≠ '/') : Textual c cs :=
  ⟨fun _ hc => absurd hc h, fun _ hc => absurd hc h⟩

-- The equations of the readers, which all lemmas below take one of.
attribute [local simp] tokens commented wellCommented stripComments in
theorem commented_plain (h : Textual c cs) : commented (.text (.plain w)) (c :: cs) =
    if c = '"' then (commented (.text (.string [])) cs).map (flush w ++ ·)
    else if isSpace c then (commented (.text (.plain [])) cs).map (flush w ++ ·)
    else if isMark c then (commented (.text (.plain [])) cs).map (flush w ++ .mark c :: ·)
    else commented (.text (.plain (w ++ [c]))) cs := by
  rw [commented]
  · exact h.line
  · exact h.block

theorem wellCommented_plain {p b : Bool} (h : Textual c cs) : wellCommented (.plain p b) (c :: cs) =
    if c = '"' then wellCommented .string cs
    else if isSpace c || isMark c then wellCommented (.plain false false) cs
    else !(p && b) && wellCommented (.plain true false) cs := by
  rw [wellCommented]
  · exact h.line
  · exact h.block

theorem stripComments_plain (h : Textual c cs) (hq : c ≠ '"') :
    stripComments .plain (c :: cs) = c :: stripComments .plain cs := by
  rw [stripComments]
  · exact h.line
  · exact h.block
  · exact hq

theorem quote_plain : ∀ d rest, '"' = '\\' → cs = d :: rest → False :=
  fun _ _ h => absurd h (by decide)

theorem commented_string (h : ∀ d rest, c = '\\' → cs = d :: rest → False) :
    commented (.text (.string s)) (c :: cs) =
      if c = '"' then (commented (.text (.plain [])) cs).map (.string s :: ·)
      else commented (.text (.string (s ++ [c]))) cs := by
  rw [commented]
  exact h

theorem tokens_string (h : ∀ d rest, c = '\\' → cs = d :: rest → False) :
    tokens (.string s) (c :: cs) =
      if c = '"' then (tokens (.plain []) cs).map (.string s :: ·)
      else tokens (.string (s ++ [c])) cs := by
  rw [tokens]
  exact h

theorem wellCommented_string (h : ∀ d rest, c = '\\' → cs = d :: rest → False) :
    wellCommented .string (c :: cs) =
      if c = '"' then wellCommented (.plain false false) cs else wellCommented .string cs := by
  rw [wellCommented]
  exact h

theorem commented_line (h : c = '\n' → False) : commented .line (c :: cs) = commented .line cs := by
  rw [commented]
  exact h

theorem wellCommented_line (h : c = '\n' → False) :
    wellCommented .line (c :: cs) = wellCommented .line cs := by
  rw [wellCommented]
  exact h

theorem commented_block (h : ∀ rest, c = '*' → cs = '/' :: rest → False) :
    commented .block (c :: cs) = commented .block cs := by
  rw [commented]
  exact h

theorem wellCommented_block {p : Bool} (h : ∀ rest, c = '*' → cs = '/' :: rest → False) :
    wellCommented (.block p) (c :: cs) = wellCommented (.block p) cs := by
  rw [wellCommented]
  exact h

theorem Agree.plain (h : Agree .plain cs) (hw : wellCommented (.plain (w ≠ []) false) cs) :
    tokens (.plain w) (stripComments .plain cs) = commented (.text (.plain w)) cs := by
  have := h w false hw
  simpa using this

theorem agree (lexing : Lexing) (cs : List Char) : Agree lexing cs := by
  induction lexing, cs using stripComments.induct
  case case1 lexing =>
    cases lexing
    case plain =>
      intro w b _
      cases b <;> simp [stripComments, tokens, commented, flush]
    case string =>
      intro s _
      rw [stripComments, tokens, commented]
    case line =>
      intro w _
      simp [stripComments, tokens, commented]
    case block =>
      intro w h
      rw [wellCommented] at h
      cases h
  case case2 cs hi =>
    intro w b h
    rw [wellCommented] at h
    rw [stripComments, hi w h, commented, commented, map_flush, ite_self]
  case case3 cs hi =>
    intro w b h
    rw [wellCommented] at h
    rw [stripComments, hi w h, commented, commented, map_flush, ite_self]
  case case4 cs hi =>
    intro w b h
    have ht : Textual '"' cs := textual_of_ne (by decide)
    rw [wellCommented_plain ht, if_pos rfl] at h
    rw [stripComments, tokens, if_pos rfl, hi [] h, commented_plain ht, commented_plain ht,
      if_pos rfl, if_pos rfl, map_flush, ite_self]
  case case5 c cs hline hblock hquote hi =>
    intro w b h
    have ht : Textual c cs := ⟨hline, hblock⟩
    rw [wellCommented_plain ht, if_neg hquote] at h
    rw [stripComments_plain ht hquote, tokens, if_neg hquote, commented_plain ht,
      commented_plain ht, if_neg hquote, if_neg hquote]
    by_cases hs : isSpace c
    case pos =>
      rw [if_pos (by simp [hs])] at h
      rw [if_pos hs, if_pos hs, if_pos hs, hi.plain (w := []) h, map_flush, ite_self]
    case neg =>
      rw [if_neg hs, if_neg hs, if_neg hs]
      by_cases hm : isMark c
      case pos =>
        rw [if_pos (by simp [hm])] at h
        rw [if_pos hm, if_pos hm, if_pos hm, hi.plain (w := []) h]
        cases b
        case false => rfl
        case true =>
          rw [if_pos rfl, Option.map_map]
          rfl
      case neg =>
        rw [if_neg (by simp [hs, hm]), Bool.and_eq_true] at h
        rw [if_neg hm, if_neg hm, if_neg hm]
        have hw : wellCommented (.plain (w ++ [c] ≠ []) false) cs := by simpa using h.right
        rw [hi.plain hw]
        cases b
        case false => rfl
        case true =>
          have he : w = [] := by simpa using h.left
          rw [he, if_pos rfl, map_flush]
  case case6 c cs hi =>
    intro s h
    rw [wellCommented] at h
    rw [stripComments, tokens, commented, hi _ h]
  case case7 cs hi =>
    intro s h
    rw [wellCommented_string quote_plain, if_pos rfl] at h
    rw [stripComments, tokens_string quote_plain, if_pos rfl, hi.plain (w := []) h,
      commented_string quote_plain, if_pos rfl]
  case case8 c cs hescape hquote hi =>
    intro s h
    rw [wellCommented_string hescape, if_neg hquote] at h
    have hs : stripComments .string (c :: cs) = c :: stripComments .string cs := by
      rw [stripComments]
      · exact hescape
      · exact hquote
    have hescape' : ∀ d rest, c = '\\' → stripComments .string cs = d :: rest → False := by
      intro d rest hc he
      cases cs
      case nil => cases he
      case cons => exact hescape _ _ hc rfl
    rw [hs, tokens_string hescape', if_neg hquote, hi _ h, commented_string hescape, if_neg hquote]
  case case9 cs hi =>
    intro w h
    rw [wellCommented] at h
    have hw : wellCommented (.plain false false) cs := h
    rw [stripComments, tokens, if_neg (by decide), if_pos (by decide), hi.plain (w := []) h,
      commented]
  case case10 c cs hline hi =>
    intro w h
    rw [wellCommented_line hline] at h
    have hs : stripComments .line (c :: cs) = stripComments .line cs := by
      rw [stripComments]
      exact hline
    rw [hs, hi w h, commented_line hline]
  case case11 cs hi =>
    intro w h
    rw [wellCommented] at h
    rw [stripComments, commented]
    by_cases hw : w = []
    case pos =>
      subst hw
      rw [hi.plain (w := []) h, map_flush]
    case neg =>
      have he : decide (w ≠ []) = true := decide_eq_true hw
      rw [he] at h
      rw [hi w true (by rwa [he]), if_pos rfl]
  case case12 c cs hblock hi =>
    intro w h
    rw [wellCommented_block hblock] at h
    have hs : stripComments .block (c :: cs) = stripComments .block cs := by
      rw [stripComments]
      exact hblock
    rw [hs, hi w h, commented_block hblock]

-- Two values that follow each other.
def Adjacent (ts : List Token) : Prop :=
  ∃ before u v after, ts = before ++ .word u :: .word v :: after

def Starts (ts : List Token) : Prop := ∃ u rest, ts = .word u :: rest

theorem Adjacent.append {ts : List Token} (h : Adjacent ts) (xs : List Token) :
    Adjacent (xs ++ ts) := by
  have ⟨before, u, v, after, he⟩ := h
  exact ⟨xs ++ before, u, v, after, by rw [he, List.append_assoc]⟩

theorem starts_flush (ts : List Token) (hw : w ≠ []) : Starts (flush w ++ ts) :=
  ⟨w, ts, by rw [flush, if_neg hw]; rfl⟩

theorem Starts.adjacent {ts : List Token} (h : Starts ts) (hw : w ≠ []) :
    Adjacent (flush w ++ ts) := by
  have ⟨u, rest, he⟩ := h
  exact ⟨[], w, u, rest, by rw [flush, if_neg hw, he]; rfl⟩

-- Where the comments of a text aren't in order, but all end, values follow each other.
def Loose : CommentMode → List Char → Prop
  | .text (.plain w), cs  => ∀ ts, commented (.text (.plain w)) cs = some ts →
    (¬wellCommented (.plain (w ≠ []) false) cs → Adjacent ts) ∧
    (w = [] → ¬wellCommented (.plain true true) cs → Adjacent ts ∨ Starts ts) ∧
    (w ≠ [] → Starts ts)
  | .text (.string s), cs => ∀ ts, commented (.text (.string s)) cs = some ts →
    ¬wellCommented .string cs → Adjacent ts
  | .line, cs             => ∀ ts, commented .line cs = some ts →
    ¬wellCommented .line cs → Adjacent ts
  | .block, cs            => ∀ ts, commented .block cs = some ts → ∀ p,
    ¬wellCommented (.block p) cs → Adjacent ts ∨ p ∧ Starts ts

theorem loose (mode : CommentMode) (cs : List Char) : Loose mode cs := by
  induction mode, cs using commented.induct
  case case1 w =>
    intro ts h
    rw [commented] at h
    injection h with h
    refine ⟨by simp [wellCommented], by simp [wellCommented], fun hw => ?_⟩
    rw [flush, if_neg hw] at h
    exact ⟨w, [], h.symm⟩
  case case2 w cs hi =>
    intro ts h
    rw [commented] at h
    have ⟨us, hu, he⟩ := Option.map_eq_some_iff.mp h
    subst he
    refine ⟨fun hw => ?_, fun _ hw => ?_, starts_flush us⟩
    · rw [wellCommented] at hw
      exact (hi us hu hw).append _
    · rw [wellCommented] at hw
      exact .inl ((hi us hu hw).append _)
  case case3 w cs hi =>
    intro ts h
    rw [commented] at h
    have ⟨us, hu, he⟩ := Option.map_eq_some_iff.mp h
    subst he
    refine ⟨fun hw => ?_, fun hn hw => ?_, starts_flush us⟩
    · rw [wellCommented] at hw
      rcases hi us hu _ hw with ha | ⟨hp, hs⟩
      · exact ha.append _
      · exact hs.adjacent (of_decide_eq_true hp)
    · rw [wellCommented] at hw
      subst hn
      exact (hi us hu _ hw).imp_right And.right
  case case4 w cs hline hblock hi =>
    intro ts h
    have ht : Textual '"' cs := ⟨hline, hblock⟩
    rw [commented_plain ht, if_pos rfl] at h
    have ⟨us, hu, he⟩ := Option.map_eq_some_iff.mp h
    subst he
    refine ⟨fun hw => ?_, fun _ hw => ?_, starts_flush us⟩
    · rw [wellCommented_plain ht, if_pos rfl] at hw
      exact (hi us hu hw).append _
    · rw [wellCommented_plain ht, if_pos rfl] at hw
      exact .inl ((hi us hu hw).append _)
  case case5 w c cs hline hblock hq hs hi =>
    intro ts h
    have ht : Textual c cs := ⟨hline, hblock⟩
    rw [commented_plain ht, if_neg hq, if_pos hs] at h
    have ⟨us, hu, he⟩ := Option.map_eq_some_iff.mp h
    subst he
    refine ⟨fun hw => ?_, fun _ hw => ?_, starts_flush us⟩
    · rw [wellCommented_plain ht, if_neg hq, if_pos (by simp [hs])] at hw
      exact ((hi us hu).left hw).append _
    · rw [wellCommented_plain ht, if_neg hq, if_pos (by simp [hs])] at hw
      exact .inl (((hi us hu).left hw).append _)
  case case6 w c cs hline hblock hq hs hm hi =>
    intro ts h
    have ht : Textual c cs := ⟨hline, hblock⟩
    rw [commented_plain ht, if_neg hq, if_neg hs, if_pos hm] at h
    have ⟨us, hu, he⟩ := Option.map_eq_some_iff.mp h
    subst he
    refine ⟨fun hw => ?_, fun _ hw => ?_, starts_flush _⟩
    · rw [wellCommented_plain ht, if_neg hq, if_pos (by simp [hm])] at hw
      exact (((hi us hu).left hw).append [.mark c]).append _
    · rw [wellCommented_plain ht, if_neg hq, if_pos (by simp [hm])] at hw
      exact .inl ((((hi us hu).left hw).append [.mark c]).append _)
  case case7 w c cs hline hblock hq hs hm hi =>
    intro ts h
    have ht : Textual c cs := ⟨hline, hblock⟩
    rw [commented_plain ht, if_neg hq, if_neg hs, if_neg hm] at h
    have hn : w ++ [c] ≠ [] := by simp
    have ⟨ha, _, hstart⟩ := hi ts h
    refine ⟨fun hw => ha ?_, fun _ _ => .inr (hstart hn), fun _ => hstart hn⟩
    rw [wellCommented_plain ht, if_neg hq, if_neg (by simp [hs, hm])] at hw
    simpa using hw
  case case8 s =>
    intro ts h
    rw [commented] at h
    cases h
  case case9 s c cs hi =>
    intro ts h hw
    rw [commented] at h
    rw [wellCommented] at hw
    exact hi ts h hw
  case case10 s cs hescape hi =>
    intro ts h hw
    rw [commented_string hescape, if_pos rfl] at h
    rw [wellCommented_string hescape, if_pos rfl] at hw
    have ⟨us, hu, he⟩ := Option.map_eq_some_iff.mp h
    subst he
    exact ((hi us hu).left hw).append [.string s]
  case case11 s c cs hescape hq hi =>
    intro ts h hw
    rw [commented_string hescape, if_neg hq] at h
    rw [wellCommented_string hescape, if_neg hq] at hw
    exact hi ts h hw
  case case12 =>
    intro ts _ hw
    simp [wellCommented] at hw
  case case13 cs hi =>
    intro ts h hw
    rw [commented] at h
    rw [wellCommented] at hw
    exact (hi ts h).left hw
  case case14 c cs hline hi =>
    intro ts h hw
    rw [commented_line hline] at h
    rw [wellCommented_line hline] at hw
    exact hi ts h hw
  case case15 =>
    intro ts h
    rw [commented] at h
    cases h
  case case16 cs hi =>
    intro ts h p hw
    rw [commented] at h
    rw [wellCommented] at hw
    have ⟨ha, hs, _⟩ := hi ts h
    cases p
    case false => exact .inl (ha hw)
    case true => exact (hs rfl hw).imp_right fun h => ⟨rfl, h⟩
  case case17 c cs hblock hi =>
    intro ts h p hw
    rw [commented_block hblock] at h
    rw [wellCommented_block hblock] at hw
    exact hi ts h p hw

end Patch.Jsonc
