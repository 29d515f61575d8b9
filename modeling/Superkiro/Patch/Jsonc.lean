import Superkiro.Patch.Comments

-- What a settings file is as JSON with comments and trailing commas.
namespace Patch.Jsonc

def closesNext : List Token → Bool
  | .mark c :: _ => isClosing c
  | _            => false

def opens : Token → Bool
  | .mark c => isOpening c
  | _       => false

-- Takes out a comma that follows the last member or element of an object or array.
def dropTrailing (opened : Bool) : List Token → List Token
  | []      => []
  | t :: ts =>
    if t = .mark ',' ∧ closesNext ts ∧ ¬opened then dropTrailing false ts
    else t :: dropTrailing (opens t) ts

-- What's read of a text if it's an object with comments and trailing commas.
def object (value : List Token → Option Json) (cs : List Char) : Option Values :=
  match (commented (.text (.plain [])) cs).bind fun ts => value (dropTrailing false ts) with
  | some (.obj fields) => some (.ofFields fields)
  | _                  => none

-- A blank text stands for no values.
def reads (value : List Token → Option Json) (cs : List Char) : Option Values :=
  if isEmpty cs then some ∅ else object value cs

-- What's relied on of the reader for strict JSON. It reads a text token by token, its words are
-- numbers and literals, and values are separated by single commas.
structure Strict [SettingsHost] where
  value  : List Token → Option Json
  reads  : ∀ cs, SettingsHost.fromStr (.ofList cs) = (tokens (.plain []) cs).bind value
  words  : ∀ {ts j w}, value ts = some j → .word w ∈ ts → ∀ c ∈ w, ¬Text.isWhitespace c
  apart  : ∀ {before u v after}, value (before ++ .word u :: .word v :: after) = none
  opened : ∀ {before c after}, isOpening c →
    value (before ++ .mark c :: .mark ',' :: after) = none

-- Whether a comma is all there is in an object or array.
def loneComma : List Token → Bool
  | .mark o :: .mark ',' :: ts =>
    (isOpening o && closesNext ts) || loneComma (.mark ',' :: ts)
  | _ :: ts                    => loneComma ts
  | []                         => false

-- A text without a comment or comma that's looser than the reader is meant to be.
structure Plain (cs : List Char) : Prop where
  comments : wellCommented (.plain false false) cs
  commas   : ∀ ts, commented (.text (.plain [])) cs = some ts → ¬loneComma ts

example : stripJsonc "1/**/2".toList = "12".toList := by decide +kernel

variable {w s cs : List Char} {c : Char} {ts us : List Token}

-- A word that isn't one of strict JSON.
def Bad (ts : List Token) : Prop := ∃ w, .word w ∈ ts ∧ ∃ c ∈ w, Text.isWhitespace c

-- Takes out all commas that are followed by the end of an object or array.
def dropAll : List Token → List Token
  | []      => []
  | t :: ts => if t = .mark ',' ∧ closesNext ts then dropAll ts else t :: dropAll ts

theorem Bad.append (h : Bad ts) (xs : List Token) : Bad (xs ++ ts) :=
  have ⟨w, hw, hc⟩ := h
  ⟨w, List.mem_append_right xs hw, hc⟩

theorem mem_dropAll {t : Token} (h : t ≠ .mark ',') : t ∈ dropAll ts ↔ t ∈ ts := by
  induction ts
  case nil => rfl
  case cons u ts hi =>
    rw [dropAll]
    split
    case isTrue hc =>
      rw [hi, List.mem_cons, hc.left]
      simp [h]
    case isFalse => rw [List.mem_cons, List.mem_cons, hi]

theorem bad_dropAll : Bad (dropAll ts) ↔ Bad ts :=
  exists_congr fun _ => and_congr_left' (mem_dropAll nofun)

theorem dropAll_append (xs : List Token) (h : .mark ',' ∉ xs) :
    dropAll (xs ++ ts) = xs ++ dropAll ts := by
  induction xs
  case nil => rfl
  case cons x xs hi =>
    rw [List.mem_cons, not_or] at h
    rw [List.cons_append, dropAll, if_neg (fun hc => h.left hc.left.symm), hi h.right,
      List.cons_append]

theorem mark_notMem_flush : .mark c ∉ flush w := by
  rw [flush]
  split <;> simp

-- How the reader of a text without trailing commas differs from that of the text.
def Same (x y : Option (List Token)) : Prop :=
  x = none ∧ y = none ∨ ∃ us ts, x = some us ∧ y = some ts ∧ (Bad us ∧ Bad ts ∨ us = dropAll ts)

theorem Same.map {x y : Option (List Token)} (h : Same x y) (xs : List Token)
    (hn : .mark ',' ∉ xs) : Same (x.map (xs ++ ·)) (y.map (xs ++ ·)) := by
  rcases h with ⟨hx, hy⟩ | ⟨us, ts, hx, hy, h⟩
  · exact .inl ⟨by rw [hx]; rfl, by rw [hy]; rfl⟩
  · refine .inr ⟨_, _, by rw [hx]; rfl, by rw [hy]; rfl, ?_⟩
    rcases h with ⟨hu, ht⟩ | h
    · exact .inl ⟨hu.append xs, ht.append xs⟩
    · exact .inr (by rw [h, dropAll_append xs hn])

-- Whether all strings end doesn't depend on the word before.
theorem tokens_none (w w' : List Char) :
    tokens (.plain w) cs = none ↔ tokens (.plain w') cs = none := by
  induction cs generalizing w w'
  case nil => simp [tokens]
  case cons c cs hi =>
    rw [tokens, tokens]
    split
    case isTrue => rw [Option.map_eq_none_iff, Option.map_eq_none_iff]
    case isFalse =>
      split
      case isTrue => rw [Option.map_eq_none_iff, Option.map_eq_none_iff]
      case isFalse =>
        split
        case isTrue => rw [Option.map_eq_none_iff, Option.map_eq_none_iff]
        case isFalse => exact hi _ _

theorem tokens_bad (hw : ∃ c ∈ w, Text.isWhitespace c) (h : tokens (.plain w) cs = some ts) :
    Bad ts := by
  have hflush (us : List Token) : Bad (flush w ++ us) := by
    refine ⟨w, ?_, hw⟩
    obtain ⟨c, hc, _⟩ := hw
    simp [flush, if_neg (List.ne_nil_of_mem hc)]
  induction cs generalizing w
  case nil =>
    rw [tokens] at h
    injection h with h
    have := hflush []
    rwa [List.append_nil, h] at this
  case cons c cs hi =>
    rw [tokens] at h
    split at h
    case isTrue =>
      obtain ⟨us, _, he⟩ := Option.map_eq_some_iff.mp h
      exact he ▸ hflush us
    case isFalse =>
      split at h
      case isTrue =>
        obtain ⟨us, _, he⟩ := Option.map_eq_some_iff.mp h
        exact he ▸ hflush us
      case isFalse =>
        split at h
        case isTrue =>
          obtain ⟨us, _, he⟩ := Option.map_eq_some_iff.mp h
          exact he ▸ hflush _
        case isFalse =>
          obtain ⟨d, hd, hs⟩ := hw
          have hw' : ∃ d ∈ w ++ [c], Text.isWhitespace d := ⟨d, by simp [hd], hs⟩
          refine hi hw' h fun us => ?_
          rw [flush, if_neg (by simp)]
          exact ⟨w ++ [c], by simp, hw'⟩

theorem isWhitespace_of_isSpace (h : isSpace c) : Text.isWhitespace c := by
  simp only [isSpace, Bool.or_eq_true, decide_eq_true_eq] at h
  rcases h with ((h | h) | h) | h <;> (subst h; decide)

theorem not_isWhitespace_of_isMark (h : isMark c) : ¬Text.isWhitespace c := by
  simp only [isMark, Bool.or_eq_true, decide_eq_true_eq] at h
  rcases h with ((((h | h) | h) | h) | h) | h <;> (subst h; decide)

theorem closes_space (h : Text.isWhitespace c) : closes (c :: cs) = closes cs := by
  rw [closes, closes, List.find?_cons_of_neg (by simpa using h)]

theorem closes_solid (h : ¬Text.isWhitespace c) : closes (c :: cs) = isClosing c := by
  rw [closes, List.find?_cons_of_pos (by simpa using h)]
  rfl

theorem isClosing_cases (h : isClosing c) : c ≠ '"' ∧ ¬isSpace c ∧ isMark c ∧ c ≠ ',' := by
  simp only [isClosing, Bool.or_eq_true, decide_eq_true_eq] at h
  rcases h with h | h <;> (subst h; decide)

-- The end of an object or array that comes next is read after whatever word is before it, if only
-- strict spaces are between.
theorem tokens_closes (h : closes cs) (w : List Char) :
    tokens (.plain w) cs = none ∧ tokens (.plain []) cs = none ∨
    ∃ us ts, tokens (.plain w) cs = some us ∧ tokens (.plain []) cs = some ts ∧
      (Bad us ∧ Bad ts ∨ us = flush w ++ ts ∧ closesNext ts) := by
  induction cs generalizing w
  case nil => cases h
  case cons c cs hi =>
    by_cases hs : Text.isWhitespace c
    case pos =>
      rw [closes_space hs] at h
      have hq : c ≠ '"' := by
        rintro rfl
        revert hs
        decide
      by_cases hp : isSpace c
      case pos =>
        rw [tokens, tokens, if_neg hq, if_neg hq, if_pos hp, if_pos hp]
        rcases hi h [] with ⟨_, hn⟩ | ⟨us, ts, hu, ht, hc⟩
        · exact .inl ⟨by rw [hn]; rfl, by rw [hn]; rfl⟩
        · refine .inr ⟨_, _, by rw [ht]; rfl, by rw [ht]; rfl, ?_⟩
          rcases hc with ⟨_, hb⟩ | ⟨_, hc⟩
          · exact .inl ⟨hb.append _, hb⟩
          · exact .inr ⟨rfl, hc⟩
      case neg =>
        have hm : ¬isMark c := fun hm => not_isWhitespace_of_isMark hm hs
        have hstep (w : List Char) :
            tokens (.plain w) (c :: cs) = tokens (.plain (w ++ [c])) cs := by
          rw [tokens, if_neg hq, if_neg hp, if_neg hm]
        rw [hstep, hstep]
        cases ht : tokens (.plain ([] ++ [c])) cs
        case none => exact .inl ⟨(tokens_none _ _).mp ht, rfl⟩
        case some ts =>
          cases hu : tokens (.plain (w ++ [c])) cs
          case none => rw [tokens_none _ ([] ++ [c]), ht] at hu; cases hu
          case some us =>
            exact .inr ⟨us, ts, rfl, rfl, .inl ⟨tokens_bad ⟨c, by simp, hs⟩ hu,
              tokens_bad ⟨c, by simp, hs⟩ ht⟩⟩
    case neg =>
      rw [closes_solid hs] at h
      have ⟨hq, hp, hm, _⟩ := isClosing_cases h
      rw [tokens, tokens, if_neg hq, if_neg hq, if_neg hp, if_neg hp, if_pos hm, if_pos hm]
      cases tokens (.plain []) cs
      case none => exact .inl ⟨rfl, rfl⟩
      case some ts => exact .inr ⟨_, _, rfl, rfl, .inr ⟨rfl, h⟩⟩

theorem closesNext_string (h : tokens (.string s) cs = some ts) : closesNext ts = false := by
  induction cs using List.twoStepInduction generalizing s
  case nil => cases h
  case singleton c =>
    rw [tokens_string (by simp)] at h
    split at h
    case isTrue =>
      have ⟨us, _, he⟩ := Option.map_eq_some_iff.mp h
      exact he ▸ rfl
    case isFalse => cases h
  case cons_cons c d cs hi hi' =>
    by_cases hc : c = '\\'
    case pos =>
      subst hc
      rw [tokens] at h
      exact hi h
    case neg =>
      rw [tokens_string (fun _ _ h => absurd h hc)] at h
      split at h
      case isTrue =>
        have ⟨us, _, he⟩ := Option.map_eq_some_iff.mp h
        exact he ▸ rfl
      case isFalse => exact hi' _ h

theorem closesNext_word (hw : w ≠ []) (h : tokens (.plain w) cs = some ts) :
    closesNext ts = false := by
  have hflush (us : List Token) : closesNext (flush w ++ us) = false := by
    rw [flush, if_neg hw]
    rfl
  induction cs generalizing w
  case nil =>
    rw [tokens] at h
    injection h with h
    have := hflush []
    rwa [List.append_nil, h] at this
  case cons c cs hi =>
    rw [tokens] at h
    split at h
    case isTrue =>
      obtain ⟨us, _, he⟩ := Option.map_eq_some_iff.mp h
      exact he ▸ hflush us
    case isFalse =>
      split at h
      case isTrue =>
        obtain ⟨us, _, he⟩ := Option.map_eq_some_iff.mp h
        exact he ▸ hflush us
      case isFalse =>
        split at h
        case isTrue =>
          obtain ⟨us, _, he⟩ := Option.map_eq_some_iff.mp h
          exact he ▸ hflush _
        case isFalse =>
          refine hi (by simp) h fun us => ?_
          rw [flush, if_neg (by simp)]
          rfl

-- Whether an end comes next is seen in the text.
theorem closes_of_closesNext (h : tokens (.plain []) cs = some ts) (hc : closesNext ts) :
    closes cs := by
  induction cs generalizing ts
  case nil =>
    rw [tokens] at h
    injection h with h
    subst h
    cases hc
  case cons c cs hi =>
    rw [tokens] at h
    split at h
    case isTrue =>
      have ⟨us, hu, he⟩ := Option.map_eq_some_iff.mp h
      subst he
      rw [flush_append, closesNext_string hu] at hc
      cases hc
    case isFalse =>
      split at h
      case isTrue hs =>
        have ⟨us, hu, he⟩ := Option.map_eq_some_iff.mp h
        subst he
        rw [closes_space (isWhitespace_of_isSpace hs)]
        exact hi hu hc
      case isFalse =>
        split at h
        case isTrue hm =>
          have ⟨us, hu, he⟩ := Option.map_eq_some_iff.mp h
          subst he
          rw [closes_solid (not_isWhitespace_of_isMark hm)]
          exact hc
        case isFalse =>
          rw [closesNext_word (by simp) h] at hc
          cases hc

theorem stripCommas_plain {inString : Bool} (hb : c ≠ '\\') (hq : c ≠ '"') (hc : c ≠ ',') :
    stripCommas inString (c :: cs) = c :: stripCommas inString cs := by
  rw [stripCommas]
  · exact fun _ _ h => absurd h hb
  · exact hq
  · exact hc

-- Taking out commas doesn't change what ends next.
theorem closes_stripCommas (h : closes cs) : closes (stripCommas false cs) := by
  induction cs
  case nil => cases h
  case cons c cs hi =>
    by_cases hs : Text.isWhitespace c
    case pos =>
      have hne (d : Char) (hd : ¬Text.isWhitespace d) : c ≠ d := fun h => hd (h ▸ hs)
      rw [closes_space hs] at h
      rw [stripCommas_plain (hne _ (by decide)) (hne _ (by decide)) (hne _ (by decide)),
        closes_space hs]
      exact hi h
    case neg =>
      rw [closes_solid hs] at h
      have ⟨hq, _, _, hc⟩ := isClosing_cases h
      have hb : c ≠ '\\' := by
        rintro rfl
        revert h
        decide
      rw [stripCommas_plain hb hq hc, closes_solid hs]
      exact h

-- What's read of a text without the commas that come before an end, and what's read of the text.
def Trimmed : Bool → List Char → Prop
  | false, cs => ∀ w, Same (tokens (.plain w) (stripCommas false cs)) (tokens (.plain w) cs)
  | true, cs  => ∀ s, Same (tokens (.string s) (stripCommas true cs)) (tokens (.string s) cs)

theorem tokens_comma : tokens (.plain w) (',' :: cs) =
    (tokens (.plain []) cs).map (flush w ++ .mark ',' :: ·) := by
  rw [tokens, if_neg (by decide), if_neg (by decide), if_pos (by decide)]

theorem trimmed_comma (hc : closes cs) (hi : Trimmed false cs) (w : List Char) :
    Same (tokens (.plain w) (stripCommas false cs))
      ((tokens (.plain []) cs).map (flush w ++ .mark ',' :: ·)) := by
  rcases hi [] with ⟨hx, hy⟩ | ⟨us, ts, hx, hy, h⟩
  · exact .inl ⟨(tokens_none _ _).mp hx, by rw [hy]; rfl⟩
  · rcases tokens_closes (closes_stripCommas hc) w with ⟨_, hn⟩ | ⟨us', us'', hu', hu, h'⟩
    · rw [hn] at hx
      cases hx
    · rw [hx] at hu
      injection hu with hu
      subst hu
      rcases tokens_closes hc [] with ⟨_, hn⟩ | ⟨_, ts', _, ht', hend⟩
      · rw [hn] at hy
        cases hy
      · rw [hy] at ht'
        injection ht' with ht'
        subst ht'
        have hbad : Bad us ↔ Bad ts := by
          rcases h with h | h
          · exact iff_of_true h.left h.right
          · rw [h, bad_dropAll]
        refine .inr ⟨us', _, hu', by rw [hy]; rfl, ?_⟩
        by_cases hb : Bad ts
        case pos =>
          refine .inl ⟨?_, (hb.append [.mark ',']).append _⟩
          rcases h' with h' | h'
          · exact h'.left
          · exact h'.left ▸ (hbad.mpr hb).append _
        case neg =>
          have hn : closesNext ts := (hend.resolve_left fun h => hb h.right).right
          have hu := (h'.resolve_left fun h => hb (hbad.mp h.right)).left
          have hd := h.resolve_left fun h => hb h.right
          refine .inr ?_
          rw [hu, hd, dropAll_append _ mark_notMem_flush, dropAll, if_pos ⟨rfl, hn⟩]

theorem trimmed (inString : Bool) (cs : List Char) : Trimmed inString cs := by
  induction inString, cs using stripCommas.induct
  case case1 inString =>
    cases inString
    case false =>
      intro w
      refine .inr ⟨flush w, flush w, rfl, rfl, .inr ?_⟩
      have hf : dropAll (flush w ++ []) = flush w ++ dropAll [] :=
        dropAll_append (flush w) mark_notMem_flush
      rw [dropAll, List.append_nil] at hf
      exact hf.symm
    case true => exact fun s => .inl ⟨rfl, rfl⟩
  case case2 c cs hi =>
    intro s
    rw [stripCommas, if_pos rfl, tokens, tokens]
    exact hi _
  case case3 inString c cs hs hi =>
    rw [Bool.not_eq_true] at hs
    subst hs
    intro w
    rw [stripCommas, if_neg (by decide), tokens, tokens, if_neg (by decide), if_neg (by decide),
      if_neg (by decide), if_neg (by decide), if_neg (by decide), if_neg (by decide)]
    exact hi _
  case case4 inString cs hi =>
    cases inString
    case false =>
      intro w
      rw [stripCommas, tokens, tokens, if_pos rfl, if_pos rfl]
      exact (hi []).map _ mark_notMem_flush
    case true =>
      intro s
      rw [stripCommas, tokens_string quote_plain, tokens_string quote_plain, if_pos rfl, if_pos rfl]
      exact (hi []).map [.string s] (by simp)
  case case5 inString cs hc hi =>
    rw [Bool.and_eq_true, Bool.not_eq_true'] at hc
    have ⟨hs, hcl⟩ := hc
    subst hs
    intro w
    rw [stripCommas, if_pos (by simpa using hcl), tokens_comma]
    exact trimmed_comma hcl hi w
  case case6 inString cs hc hi =>
    cases inString
    case false =>
      intro w
      rw [stripCommas, if_neg hc, tokens_comma, tokens_comma]
      rcases hi [] with ⟨hx, hy⟩ | ⟨us, ts, hx, hy, h⟩
      · exact .inl ⟨by rw [hx]; rfl, by rw [hy]; rfl⟩
      · refine .inr ⟨_, _, by rw [hx]; rfl, by rw [hy]; rfl, ?_⟩
        rcases h with ⟨hu, ht⟩ | h
        · exact .inl ⟨(hu.append [.mark ',']).append _, (ht.append [.mark ',']).append _⟩
        · have hn : ¬closesNext ts := fun hn => hc (by simpa using closes_of_closesNext hy hn)
          refine .inr ?_
          rw [dropAll_append _ mark_notMem_flush, dropAll, if_neg (fun h => hn h.right), h]
    case true =>
      intro s
      have hplain (rest : List Char) : ∀ d cs, ',' = '\\' → rest = d :: cs → False :=
        fun _ _ h => absurd h (by decide)
      rw [stripCommas, if_neg hc, tokens_string (hplain _), tokens_string (hplain _),
        if_neg (by decide), if_neg (by decide)]
      exact hi _
  case case7 inString c cs hb hq hm hi =>
    have hs : stripCommas inString (c :: cs) = c :: stripCommas inString cs := by
      rw [stripCommas]
      · exact hb
      · exact hq
      · exact hm
    cases inString
    case false =>
      intro w
      rw [hs, tokens, tokens, if_neg hq, if_neg hq]
      by_cases hsp : isSpace c
      case pos =>
        rw [if_pos hsp, if_pos hsp]
        exact (hi []).map _ mark_notMem_flush
      case neg =>
        rw [if_neg hsp, if_neg hsp]
        by_cases hmk : isMark c
        case pos =>
          rw [if_pos hmk, if_pos hmk]
          have hmap := ((hi []).map [.mark c] (by simpa using Ne.symm hm)).map _
            (mark_notMem_flush (w := w))
          rwa [Option.map_map, Option.map_map] at hmap
        case neg =>
          rw [if_neg hmk, if_neg hmk]
          exact hi _
    case true =>
      intro s
      have hb' : ∀ d rest, c = '\\' → stripCommas true cs = d :: rest → False := by
        intro d rest hc he
        cases cs
        case nil => cases he
        case cons => exact hb _ _ hc rfl
      rw [hs, tokens_string hb', tokens_string hb, if_neg hq, if_neg hq]
      exact hi _

theorem loneComma_tail {t : Token} (h : ¬loneComma (t :: ts)) : ¬loneComma ts := by
  intro hl
  apply h
  unfold loneComma
  split
  case h_1 he =>
    injection he with _ he
    subst he
    simp [hl]
  case h_2 he =>
    injection he with _ he
    subst he
    exact hl
  case h_3 he => cases he

-- Without a lone comma each comma in front of an end is a trailing one.
theorem dropTrailing_eq {opened : Bool} (h : ¬loneComma ts)
    (ho : opened → ∀ us, ts = .mark ',' :: us → ¬closesNext us) :
    dropTrailing opened ts = dropAll ts := by
  induction ts generalizing opened
  case nil => rfl
  case cons t ts hi =>
    have ht := loneComma_tail h
    rw [dropTrailing, dropAll]
    by_cases hc : t = .mark ',' ∧ closesNext ts
    case pos =>
      have hn : ¬opened := fun h => ho h ts (by rw [hc.left]) hc.right
      rw [if_pos ⟨hc.left, hc.right, hn⟩, if_pos hc]
      exact hi ht (fun h => Bool.noConfusion h)
    case neg =>
      rw [if_neg fun h => hc ⟨h.left, h.right.left⟩, if_neg hc]
      refine congrArg _ (hi ht fun hp us he hend => h ?_)
      subst he
      cases t
      case mark o =>
        have hp : isOpening o := hp
        simp [loneComma, hp, hend]
      case string => cases hp
      case word => cases hp

theorem exists_of_loneComma (h : loneComma ts) (opened : Bool) :
    ∃ before o after, isOpening o ∧
      dropTrailing opened ts = before ++ .mark o :: .mark ',' :: after := by
  induction ts generalizing opened
  case nil => cases h
  case cons t ts hi =>
    by_cases hl : loneComma ts
    case pos =>
      rw [dropTrailing]
      split
      case isTrue => exact hi hl false
      case isFalse =>
        have ⟨before, o, after, ho, he⟩ := hi hl (opens t)
        exact ⟨t :: before, o, after, ho, by rw [he, List.cons_append]⟩
    case neg =>
      unfold loneComma at h
      split at h
      case h_1 o us he =>
        injection he with ht hts
        subst ht hts
        rw [Bool.or_eq_true, Bool.and_eq_true] at h
        have ⟨ho, _⟩ := h.resolve_right hl
        have hne : o ≠ ',' := by
          rintro rfl
          cases ho
        have hopens : opens (.mark o) = true := ho
        refine ⟨[], o, dropTrailing false us, ho, ?_⟩
        rw [dropTrailing, if_neg (by simp [hne]), dropTrailing, if_neg (by simp [hopens])]
        rfl
      case h_2 he =>
        injection he with _ he
        subst he
        exact absurd h hl
      case h_3 he => cases he

theorem mem_dropTrailing {t : Token} {opened : Bool} (h : t ≠ .mark ',') :
    t ∈ dropTrailing opened ts ↔ t ∈ ts := by
  induction ts generalizing opened
  case nil => rfl
  case cons u ts hi =>
    rw [dropTrailing]
    split
    case isTrue hc =>
      rw [hi, List.mem_cons, hc.left]
      simp [h]
    case isFalse => rw [List.mem_cons, List.mem_cons, hi]

theorem dropTrailing_word {u : List Char} (before : List Token) (opened : Bool) :
    ∃ before', dropTrailing opened (before ++ .word u :: ts) =
      before' ++ .word u :: dropTrailing false ts := by
  induction before generalizing opened
  case nil => exact ⟨[], by rw [List.nil_append, dropTrailing, if_neg (by simp)]; rfl⟩
  case cons t before hi =>
    rw [List.cons_append, dropTrailing]
    split
    case isTrue => exact hi false
    case isFalse =>
      have ⟨before', he⟩ := hi (opens t)
      exact ⟨t :: before', by rw [he, List.cons_append]⟩

theorem Adjacent.dropTrailing (h : Adjacent ts) : Adjacent (dropTrailing false ts) := by
  have ⟨before, u, v, after, he⟩ := h
  subst he
  have ⟨before', he⟩ : ∃ before', Jsonc.dropTrailing false (before ++ .word u :: .word v :: after) =
      before' ++ .word u :: Jsonc.dropTrailing false (.word v :: after) :=
    dropTrailing_word before false
  exact ⟨before', u, v, _, by rw [he, Jsonc.dropTrailing, if_neg (by simp)]⟩

theorem Adjacent.dropTrailing_ne [SettingsHost] (S : Strict) (h : Adjacent ts) :
    S.value (Jsonc.dropTrailing false ts) = none := by
  have ⟨_, _, _, _, he⟩ := h.dropTrailing
  rw [he, S.apart]

theorem Bad.value [SettingsHost] (S : Strict) (h : Bad ts) : S.value ts = none := by
  by_contra hn
  have ⟨_, hj⟩ := Option.ne_none_iff_exists'.mp hn
  have ⟨_, hw, c, hc, hs⟩ := h
  exact S.words hj hw c hc hs

-- What's left of a plain text is read for what the text means.
theorem Plain.fromStr [SettingsHost] (S : Strict) (h : Plain cs) :
    SettingsHost.fromStr (.ofList (stripJsonc cs)) =
      (commented (.text (.plain [])) cs).bind fun ts => S.value (dropTrailing false ts) := by
  have hs : Same (tokens (.plain []) (stripJsonc cs)) _ :=
    trimmed false (stripComments .plain cs) []
  rw [(agree .plain cs).plain (w := []) h.comments] at hs
  rw [S.reads]
  rcases hs with ⟨hx, hy⟩ | ⟨us, ts, hx, hy, hs⟩
  · rw [hx, hy]
    rfl
  · rw [hx, hy, Option.bind_some, Option.bind_some]
    rcases hs with ⟨hu, ht⟩ | hs
    · have hd : Bad (dropTrailing false ts) :=
        have ⟨w, hw, hc⟩ := ht
        ⟨w, (mem_dropTrailing (t := .word w) nofun).mpr hw, hc⟩
      rw [hu.value S, hd.value S]
    · have he : dropTrailing false ts = dropAll ts :=
        dropTrailing_eq (h.commas ts hy) (fun h => Bool.noConfusion h)
      rw [hs, he]

-- Whatever is to be read at all is plain.
theorem plain_of_value [SettingsHost] (S : Strict) {j : Json}
    (h : ((commented (.text (.plain [])) cs).bind fun ts => S.value (dropTrailing false ts)) =
      some j) : Plain cs := by
  have ⟨ts, ht, hj⟩ := Option.bind_eq_some_iff.mp h
  refine ⟨?_, fun us hu hl => ?_⟩
  · by_contra hw
    have ha := (loose (.text (.plain [])) cs ts ht).left hw
    rw [ha.dropTrailing_ne S] at hj
    cases hj
  · rw [ht] at hu
    injection hu with hu
    subst hu
    have ⟨_, _, _, ho, he⟩ := exists_of_loneComma hl false
    rw [he, S.opened ho] at hj
    cases hj

theorem parseSettings_blank [SettingsHost] {raw : Bytes} {text : List Char}
    (h : decoded? raw = some text) (he : isEmpty (stripBom text).2) : parseSettingsBytes raw = .ok ∅ := by
  simp [parseSettingsBytes, h, Except.ofOption, bind, Except.bind, pure, Except.pure, he]

theorem parseSettings_text [SettingsHost] {raw : Bytes} {text : List Char}
    (h : decoded? raw = some text) (he : ¬isEmpty (stripBom text).2) : (parseSettingsBytes raw).toOption =
      match SettingsHost.fromStr (.ofList (stripJsonc (stripBom text).2)) with
      | some (.obj fields) => some (.ofFields fields)
      | _                  => none := by
  simp only [parseSettingsBytes, h, Except.ofOption, bind, Except.bind, he]
  cases hf : SettingsHost.fromStr (.ofList (stripJsonc (stripBom text).2))
  case none =>
    cases SettingsHost.value .kiro (.ofList (stripBom text).2) <;> rfl
  case some j =>
    cases j <;> rfl

theorem decoded_encode (text : List Char) : decoded? (Utf8.encode text) = some text := by
  have h : Utf8.fromUtf8 (Utf8.encode text ++ []) = (text, []) :=
    Utf8.fromUtf8_eq Utf8.decodeChar?_nil
  rw [List.append_nil] at h
  simp [decoded?, h]

-- The text of a settings file after its byte order mark.
def content (text : List Char) : List Char := (stripBom text).2

-- Every text that's refused is one that's not to be read. One that's accepted is read for what it
-- means if and only if it's blank or plain.
theorem parseSettings_reads_iff [SettingsHost] (S : Strict) (text : List Char) :
    ((parseSettingsBytes (Utf8.encode text)).isOk →
      ((parseSettingsBytes (Utf8.encode text)).toOption = reads S.value (content text) ↔
        isEmpty (content text) ∨ Plain (content text))) ∧
    (¬(parseSettingsBytes (Utf8.encode text)).isOk → reads S.value (content text) = none) := by
  have hd := decoded_encode text
  by_cases he : isEmpty (content text)
  case pos =>
    have hr : reads S.value (content text) = some ∅ := if_pos he
    rw [parseSettings_blank hd he, hr]
    exact ⟨fun _ => iff_of_true rfl (.inl he), fun h => absurd rfl h⟩
  case neg =>
    have hp := parseSettings_text hd he
    have hr : reads S.value (content text) = object S.value (content text) := if_neg he
    rw [hr]
    have hplain (h : Plain (content text)) :
        (parseSettingsBytes (Utf8.encode text)).toOption = object S.value (content text) := by
      rw [hp, object, ← h.fromStr S]
      rfl
    have hsome {m : Values} (h : object S.value (content text) = some m) :
        Plain (content text) := by
      rw [object] at h
      split at h
      case h_1 hv => exact plain_of_value S hv
      case h_2 => cases h
    constructor
    · intro hok
      have ⟨m, hm⟩ := Except.exists_of_isOk hok
      refine ⟨fun h => .inr ?_, fun h => hplain (h.resolve_left he)⟩
      rw [hm] at h
      exact hsome h.symm
    · intro hok
      by_contra hn
      have ⟨m, hm⟩ := Option.ne_none_iff_exists'.mp hn
      apply hok
      have h := hplain (hsome hm)
      rw [hm] at h
      cases hx : parseSettingsBytes (Utf8.encode text)
      case ok => rfl
      case error => rw [hx] at h; cases h

namespace Joining

def twelve : List Token := [.mark '\x7b', .string ['a'], .mark ':', .word ['1', '2'], .mark '\x7d']

def value (ts : List Token) : Option Json :=
  if ts = twelve then some (.obj [("a", .num 12)]) else none

scoped instance host : SettingsHost where
  fromStr text  := (tokens (.plain []) text.toList).bind value
  host _        := none
  Doc           := Unit
  value _ _     := .ok none
  parse _ _     := .ok none
  set doc _ _   := doc
  remove doc _  := doc
  text _        := ""

theorem fromStr_ofList (cs : List Char) :
    SettingsHost.fromStr (.ofList cs) = (tokens (.plain []) cs).bind value := by
  change (tokens (.plain []) (String.ofList cs).toList).bind value = _
  rw [String.toList_ofList]

theorem value_eq_some {ts : List Token} {j : Json} (h : value ts = some j) : ts = twelve := by
  by_contra hn
  rw [value, if_neg hn] at h
  cases h

def strict : Strict where
  value  := value
  reads  := fromStr_ofList
  words {ts j w} h hw := by
    rw [value_eq_some h] at hw
    have hw : w = ['1', '2'] := by simpa [twelve] using hw
    subst hw
    have hs : ∀ c ∈ ['1', '2'], Text.isWhitespace c = false := by simp [Text.isWhitespace]
    exact fun c hc => by rw [hs c hc]; decide
  apart {before u v after} := by
    by_contra hn
    have ⟨_, hj⟩ := Option.ne_none_iff_exists'.mp hn
    have h := value_eq_some hj
    rcases before with _ | ⟨_, _ | ⟨_, _ | ⟨_, _ | ⟨_, _ | ⟨_, _⟩⟩⟩⟩⟩ <;> simp [twelve] at h
  opened {before c after} _ := by
    by_contra hn
    have ⟨_, hj⟩ := Option.ne_none_iff_exists'.mp hn
    have h := value_eq_some hj
    rcases before with _ | ⟨_, _ | ⟨_, _ | ⟨_, _ | ⟨_, _ | ⟨_, _⟩⟩⟩⟩⟩ <;> simp [twelve] at h

def joined : List Char := ['\x7b', '"', 'a', '"', ':', '1', '/', '*', '*', '/', '2', '\x7d']

end Joining

open Joining

-- Two numbers with a comment between them are read as one.
theorem parseSettings_joins :
    (parseSettingsBytes (Utf8.encode Joining.joined)).toOption = some (.ofFields [("a", .num 12)]) ∧
    reads Joining.strict.value (content Joining.joined) = none := by
  have hc : content Joining.joined = Joining.joined := by decide
  have hs : stripJsonc Joining.joined = ['\x7b', '"', 'a', '"', ':', '1', '2', '\x7d'] := by decide
  constructor
  · have he : ¬isEmpty (content Joining.joined) := by decide
    have hp := parseSettings_text (decoded_encode Joining.joined) he
    have hf : SettingsHost.fromStr (.ofList (stripJsonc Joining.joined)) =
        some (.obj [("a", .num 12)]) := by
      rw [hs, fromStr_ofList]
      rfl
    have hb : (stripBom Joining.joined).2 = Joining.joined := hc
    rw [hp, hb, hf]
  · rw [hc]
    decide

end Patch.Jsonc
