import Superkiro.Patch.Repairs

-- What's redirected in a bundle.
namespace Patch.Bundle

open String (utf8Len)

open Search Slices Rewriting

-- An identifier, as the hole in a needle stands for any.
structure Name (name : List Char) : Prop where
  ne_nil : name ≠ []
  chars  : ∀ c ∈ name, isNameChar c
  head   : ∀ c, name.head? = some c → ¬oneOf Bytes.isDigit c

-- What a needle is written as.
def Occurs (needle text : List Char) : Prop :=
  match splitOnce hole needle with
  | none              => text = needle
  | some (head, tail) => ∃ name, Name name ∧ text = head ++ opening ++ name ++ '\x7d' :: tail

-- A string or template literal that's nothing but an endpoint.
def Literal (needle literal : List Char) : Prop :=
  ∃ quote text, isQuote quote ∧ Occurs needle text ∧ literal = quote :: text ++ [quote]

-- An occurrence with the same quote on both sides.
def Quoted (before after : List Char) : Prop :=
  ∃ quote x y, isQuote quote ∧ before = x ++ [quote] ∧ after = quote :: y

def Redirect.text (redirect : Redirect) (literal : List Char) : List Char :=
  match redirect.isOwner with
  | none         => redirect.replacement
  | some isOwner =>
    ['('] ++ isOwner ++ ['?'] ++ redirect.replacement ++ [':'] ++ literal ++ [')']

-- A literal and what's kept in front of it.
structure Cut where
  kept    : List Char
  literal : List Char

def joined (cuts : List Cut) : List Char := cuts.flatMap fun c => c.kept ++ c.literal

def redirected (redirect : Redirect) (cuts : List Cut) : List Char :=
  cuts.flatMap fun c => c.kept ++ redirect.text c.literal

-- Where the literals start.
def startsAfter (n : Nat) : List Cut → List Nat
  | []      => []
  | c :: cs =>
    (n + c.kept.length) :: startsAfter (n + c.kept.length + c.literal.length) cs

-- A bundle in which all literals that are endpoints, and nothing else, were redirected. No endpoint
-- is written as the needle elsewhere.
structure Redirected (needle : List Char) (redirect : Redirect) (content body : List Char)
    (cuts : List Cut) (rest : List Char) : Prop where
  split    : content = joined cuts ++ rest
  body     : body = redirected redirect cuts ++ rest
  nonempty : cuts ≠ []
  literals : ∀ c ∈ cuts, Literal needle c.literal
  all      : ∀ x l y, content = x ++ l ++ y → Literal needle l → x.length ∈ startsAfter 0 cuts
  exact    : ∀ x y, content = x ++ needle ++ y → Quoted x y

-- Where the needle is looked for.
def sought (needle : List Char) : List Char :=
  match splitOnce hole needle with
  | none           => needle
  | some (head, _) => head ++ opening

-- No endpoint that's a whole literal, or is written as the needle, starts within what was found
-- before it.
def NoneOverlooked (needle content : List Char) : Prop :=
  ∀ x text y, content = x ++ text ++ y → Occurs needle text →
    text = needle ∨ Quoted x y → ∃ after, (x, after) ∈ matchIndices (sought needle) content

-- A place where the needle occurs.
structure Found where
  before : List Char
  text   : List Char
  after  : List Char
  exact  : Bool

def Found.occurrence (f : Found) : NeedleOccurrence :=
  ⟨utf8Len f.before, utf8Len (f.before ++ f.text), f.exact⟩

structure Found.Valid (needle content : List Char) (f : Found) : Prop where
  split  : content = f.before ++ f.text ++ f.after
  occurs : Occurs needle f.text
  exact  : f.exact ↔ f.text = needle
  found  : ∃ after, (f.before, after) ∈ matchIndices (sought needle) content

section Occurrences

variable {content head tail before after name rest : List Char}

-- What's found after a needle's head.
def foundAt (head tail : List Char) (found : List Char × List Char) : Option Found :=
  let name := found.2.takeWhile isNameChar
  let rest := found.2.dropWhile isNameChar
  if name = [] then none
  else if name.head?.any (oneOf Bytes.isDigit) then none
  else if ¬tail <+: rest then none
  else some ⟨found.1, head ++ name ++ tail, rest.drop tail.length, name = ['t']⟩

theorem encode_head {c : Char} (cs : List Char) (h : isNameChar c) :
    (Utf8.encode (c :: cs))[0]? = some c.val.toUInt8 ∧
      oneOf Bytes.isDigit c = Bytes.isDigit c.val.toUInt8 := by
  rw [isNameChar, oneOf, Bool.and_eq_true, decide_eq_true_eq] at h
  constructor
  · rw [Utf8.encode_cons, String.utf8EncodeChar_eq_singleton h.left]
    rfl
  · rw [oneOf, h.left]
    rfl

theorem occurrenceAt_eq (h : content = before ++ head ++ after) :
    occurrenceAt content head tail (before, after) =
      some ((foundAt head tail (before, after)).map Found.occurrence) := by
  have hs : sliceFrom (utf8Len before + utf8Len head) content = some after := by
    rw [← String.utf8Len_append, h, sliceFrom_append]
  have hn : ((Utf8.encode after).takeWhile isNameByte).length =
      (after.takeWhile isNameChar).length := length_takeWhile_encode isNameByte_lt
  have hw : utf8Len (after.takeWhile isNameChar) = (after.takeWhile isNameChar).length :=
    utf8Len_oneOf fun c hc => List.mem_takeWhile_imp hc
  have ht : after = after.takeWhile isNameChar ++ after.dropWhile isNameChar :=
    List.takeWhile_append_dropWhile.symm
  have hc : ∀ c ∈ after.takeWhile isNameChar, isNameChar c := fun c => List.mem_takeWhile_imp
  simp only [occurrenceAt, foundAt, hs, hn, Option.bind_eq_bind, Option.bind_some]
  generalize after.takeWhile isNameChar = name at ht hw hc
  generalize after.dropWhile isNameChar = rest at ht
  have hfrom : sliceFrom name.length after = some rest := by
    rw [ht, ← hw, sliceFrom_append]
  have hto : sliceTo name.length after = some name := by
    rw [ht, ← hw, sliceTo_append]
  cases name
  case nil => rfl
  case cons c cs =>
    have ⟨hb, hd⟩ := encode_head (cs ++ rest) (hc c List.mem_cons_self)
    rw [← List.cons_append, ← ht] at hb
    rw [if_neg (by simp), if_neg (by simp), hb, Option.bind_some, List.head?_cons,
      Option.any_some, hd]
    by_cases hdigit : Bytes.isDigit c.val.toUInt8
    case pos =>
      rw [if_pos hdigit, if_pos hdigit]
      rfl
    case neg =>
      rw [if_neg hdigit, if_neg hdigit, hfrom, Option.bind_some]
      by_cases hp : tail <+: rest
      case pos =>
        rw [if_neg (not_not.mpr hp), if_neg (not_not.mpr hp), hto, Option.bind_some]
        have hl : utf8Len before + utf8Len head + (c :: cs).length + utf8Len tail =
            utf8Len (before ++ (head ++ (c :: cs) ++ tail)) := by
          rw [← hw]
          simp only [String.utf8Len_append]
          omega
        rw [hl]
        rfl
      case neg =>
        rw [if_pos hp, if_pos hp]
        rfl

variable {needle text x y : List Char} {f : Found}

def founds (content needle : List Char) : List Found :=
  match splitOnce hole needle with
  | none              => (matchIndices needle content).map fun m => ⟨m.1, needle, m.2, true⟩
  | some (head, tail) =>
    (matchIndices (head ++ opening) content).filterMap (foundAt (head ++ opening) ('\x7d' :: tail))

theorem mapM_some {α β : Type} {g : α → Option β} {h : α → β} {l : List α}
    (hg : ∀ a ∈ l, g a = some (h a)) : l.mapM g = some (l.map h) := by
  induction l
  case nil => rfl
  case cons a l hi =>
    rw [List.mapM_cons, hg a List.mem_cons_self,
      hi fun b hb => hg b (List.mem_cons_of_mem a hb)]
    rfl

theorem needleOccurrences_eq (content needle : List Char) :
    needleOccurrences content needle = some ((founds content needle).map Found.occurrence) := by
  cases hs : splitOnce hole needle
  case none =>
    simp only [needleOccurrences, founds, hs, List.map_map]
    refine congrArg some (List.map_congr_left fun m _ => ?_)
    simp [Found.occurrence]
  case some r =>
    have ⟨head, tail⟩ := r
    have hm : (matchIndices (head ++ opening) content).mapM
        (occurrenceAt content (head ++ opening) ('\x7d' :: tail)) =
        some ((matchIndices (head ++ opening) content).map fun m =>
          (foundAt (head ++ opening) ('\x7d' :: tail) m).map Found.occurrence) :=
      mapM_some fun m hm => occurrenceAt_eq (matchIndices_sound hm)
    simp only [needleOccurrences, founds, hs, hm, Option.map_some, List.map_filterMap,
      List.reduceOption, List.filterMap_map]
    rfl

theorem text_eq_needle_iff {h t : List Char} (hs : splitOnce hole needle = some (h, t)) :
    h ++ opening ++ name ++ '\x7d' :: t = needle ↔ name = ['t'] := by
  have hn : needle = h ++ opening ++ ['t'] ++ '\x7d' :: t := by
    rw [splitOnce_eq hs]
    simp [hole, opening]
  rw [hn]
  constructor
  · intro he
    exact List.append_cancel_left (List.append_cancel_right he)
  · intro he
    rw [he]

theorem valid_founds (h : f ∈ founds content needle) : f.Valid needle content := by
  unfold founds at h
  split at h
  case h_1 hs =>
    have ⟨m, hm, he⟩ := List.mem_map.mp h
    subst he
    refine ⟨matchIndices_sound hm, ?_, iff_of_true rfl rfl, m.2, ?_⟩
    · rw [Occurs, hs]
    · rw [sought, hs]
      exact hm
  case h_2 head tail hs =>
    have ⟨m, hm, he⟩ := List.mem_filterMap.mp h
    have hc := matchIndices_sound hm
    rw [foundAt] at he
    have ht : m.2 = m.2.takeWhile isNameChar ++ m.2.dropWhile isNameChar :=
      List.takeWhile_append_dropWhile.symm
    have hchars : ∀ c ∈ m.2.takeWhile isNameChar, isNameChar c := fun c => List.mem_takeWhile_imp
    generalize m.2.takeWhile isNameChar = name at he ht hchars
    generalize m.2.dropWhile isNameChar = rest at he ht
    split at he
    case isTrue => cases he
    case isFalse hne =>
      split at he
      case isTrue => cases he
      case isFalse hd =>
        split at he
        case isTrue => cases he
        case isFalse hp =>
          injection he with he
          subst he
          have hr := eq_append_of_prefix (not_not.mp hp)
          refine ⟨?_, ?_, ?_, m.2, ?_⟩
          · rw [hc, ht]
            conv_lhs => rw [hr]
            simp
          · rw [Occurs, hs]
            exact ⟨name, ⟨hne, hchars, fun c hc => by simpa [hc] using hd⟩, rfl⟩
          · rw [decide_eq_true_eq]
            exact (text_eq_needle_iff hs).symm
          · rw [sought, hs]
            exact hm

theorem foundAt_name {h t : List Char} (hn : Name name) : foundAt h ('\x7d' :: t)
    (before, name ++ '\x7d' :: t ++ y) =
      some ⟨before, h ++ name ++ '\x7d' :: t, y, name = ['t']⟩ := by
  have hb : ¬isNameChar '\x7d' := by
    have hf : isNameChar '\x7d' = false := rfl
    rw [hf]
    decide
  have htake : (name ++ '\x7d' :: t ++ y).takeWhile isNameChar = name := by
    rw [List.append_assoc, List.takeWhile_append_of_pos hn.chars, List.cons_append,
      List.takeWhile_cons_of_neg hb, List.append_nil]
  have hdrop : (name ++ '\x7d' :: t ++ y).dropWhile isNameChar = '\x7d' :: t ++ y := by
    rw [List.append_assoc, List.dropWhile_append_of_pos hn.chars, List.cons_append,
      List.dropWhile_cons_of_neg hb]
  have hd : ¬name.head?.any (oneOf Bytes.isDigit) := by
    cases hh : name.head?
    case none => simp
    case some c => simpa using hn.head c hh
  rw [foundAt]
  simp only [htake, hdrop]
  rw [if_neg hn.ne_nil, if_neg hd, if_neg (not_not.mpr (List.prefix_append ..)), List.drop_left]

-- What occurs where the needle is found is one of the occurrences.
theorem mem_founds (hc : content = x ++ text ++ y) (ho : Occurs needle text)
    (hm : (x, after) ∈ matchIndices (sought needle) content) :
    ∃ f ∈ founds content needle, f.before = x ∧ f.text = text ∧ f.after = y := by
  have hx := matchIndices_sound hm
  cases hs : splitOnce hole needle
  case none =>
    rw [Occurs, hs] at ho
    rw [sought, hs] at hm hx
    subst ho
    have ha : after = y := List.append_cancel_left (hx.symm.trans hc)
    simp only [founds, hs]
    exact ⟨_, List.mem_map_of_mem hm, rfl, rfl, ha⟩
  case some r =>
    have ⟨head, tail⟩ := r
    rw [Occurs, hs] at ho
    rw [sought, hs] at hm hx
    have ⟨name, hn, ht⟩ := ho
    have ha : after = name ++ '\x7d' :: tail ++ y := by
      rw [hc, ht] at hx
      simpa using hx.symm
    subst ha
    simp only [founds, hs]
    exact ⟨_, List.mem_filterMap.mpr ⟨_, hm, foundAt_name hn⟩, rfl, ht.symm, rfl⟩

end Occurrences

section Loop

variable {content needle body kept literal : List Char} {redirect : Redirect} {cuts : List Cut}
  {rendering rendering' : Rendering} {f : Found} {fs : List Found}

theorem joined_append (cuts cuts' : List Cut) :
    joined (cuts ++ cuts') = joined cuts ++ joined cuts' :=
  List.flatMap_append

theorem joined_single (c : Cut) : joined [c] = c.kept ++ c.literal := List.flatMap_singleton ..

theorem redirected_append (cuts cuts' : List Cut) :
    redirected redirect (cuts ++ cuts') = redirected redirect cuts ++ redirected redirect cuts' :=
  List.flatMap_append

theorem redirected_single (c : Cut) :
    redirected redirect [c] = c.kept ++ redirect.text c.literal := List.flatMap_singleton ..

theorem startsAfter_append (n : Nat) (cuts cuts' : List Cut) : startsAfter n (cuts ++ cuts') =
    startsAfter n cuts ++ startsAfter (n + (joined cuts).length) cuts' := by
  induction cuts generalizing n
  case nil => rfl
  case cons c cuts hi =>
    have hj : joined (c :: cuts) = c.kept ++ c.literal ++ joined cuts := List.flatMap_cons
    rw [List.cons_append, startsAfter, hi, startsAfter, List.cons_append, hj, List.length_append,
      List.length_append, Nat.add_assoc, Nat.add_assoc, Nat.add_assoc]

-- What was rendered of a bundle, up to the last cut.
structure Rendered (content : List Char) (redirect : Redirect) (cuts : List Cut)
    (rendering : Rendering) : Prop where
  split    : joined cuts <+: content
  body     : rendering.body = redirected redirect cuts
  copied   : rendering.copied = utf8Len (joined cuts)
  replaced : rendering.replaced = cuts.length

theorem prefix_of_utf8Len_le {x y : List Char} (hx : x <+: content) (hy : y <+: content)
    (h : utf8Len x ≤ utf8Len y) : x <+: y := by
  obtain hp | ⟨z, hz⟩ := List.prefix_or_prefix_of_prefix hx hy
  case inl => exact hp
  case inr =>
    rw [← hz, String.utf8Len_append] at h
    cases z
    case nil => exact ⟨[], by rw [← hz, List.append_nil, List.append_nil]⟩
    case cons c cs =>
      have := c.utf8Size_pos
      rw [String.utf8Len_cons] at h
      omega

theorem checked_some (a : α) : checked (some a) = .ok a := rfl

theorem not_quoted_of_last (h : f.before.getLast?.filter isQuote = none) :
    ¬Quoted f.before f.after := by
  rintro ⟨quote, x, y, hq, hb, _⟩
  rw [hb, List.getLast?_concat, Option.filter_some, if_pos hq] at h
  cases h

theorem wholeQuote_eq (hc : content = f.before ++ f.text ++ f.after) :
    (¬Quoted f.before f.after ∧ wholeQuote content f.occurrence = .ok none) ∨
      ∃ quote x y, isQuote quote ∧ f.before = x ++ [quote] ∧ f.after = quote :: y ∧
        wholeQuote content f.occurrence = .ok (some quote) := by
  have hb : sliceTo f.occurrence.start content = some f.before := by
    rw [hc, List.append_assoc]
    exact sliceTo_append
  have ha : sliceFrom f.occurrence.stop content = some f.after := by
    rw [hc]
    exact sliceFrom_append
  cases hq : f.before.getLast?.filter isQuote
  case none =>
    refine .inl ⟨not_quoted_of_last hq, ?_⟩
    simp only [wholeQuote, hb, checked_some, bind, Except.bind, hq]
    rfl
  case some quote =>
    have ⟨hl, hquote⟩ := Option.filter_eq_some_iff.mp hq
    have ⟨x, hx⟩ := List.getLast?_eq_some_iff.mp hl
    by_cases hh : f.after.head? = some quote
    case pos =>
      have ⟨y, hy⟩ := List.head?_eq_some_iff.mp hh
      refine .inr ⟨quote, x, y, hquote, hx, hy, ?_⟩
      simp only [wholeQuote, hb, checked_some, bind, Except.bind, hq, ha, hh, if_true]
      rfl
    case neg =>
      refine .inl ⟨?_, ?_⟩
      · rintro ⟨quote', x', y', _, hb', ha'⟩
        rw [hb', List.getLast?_concat] at hl
        cases hl
        exact hh (by rw [ha']; rfl)
      · simp only [wholeQuote, hb, checked_some, bind, Except.bind, hq, ha, hh, if_false]
        rfl

theorem redirectOne_quoted {quote : Char} {x y : List Char}
    (hc : content = f.before ++ f.text ++ f.after) (hr : Rendered content redirect cuts rendering)
    (hb : f.before = x ++ [quote]) (ha : f.after = quote :: y)
    (hw : wholeQuote content f.occurrence = .ok (some quote)) :
    redirectOne content redirect rendering f.occurrence = .error missing ∨
      ∃ kept rendering', redirectOne content redirect rendering f.occurrence = .ok rendering' ∧
        x = joined cuts ++ kept ∧
        Rendered content redirect (cuts ++ [⟨kept, quote :: f.text ++ [quote]⟩]) rendering' := by
  have hcx : content = x ++ (quote :: f.text ++ [quote]) ++ y := by
    rw [hc, hb, ha]
    simp
  have hstart : f.occurrence.start - quote.utf8Size = utf8Len x := by
    simp [Found.occurrence, hb, String.utf8Len_append]
  have hstop : f.occurrence.stop + quote.utf8Size =
      utf8Len (x ++ (quote :: f.text ++ [quote])) := by
    simp only [Found.occurrence, hb, String.utf8Len_append, String.utf8Len_cons,
      String.utf8Len_nil]
    omega
  simp only [redirectOne, hw, hstart, hstop, bind, Except.bind]
  by_cases hle : rendering.copied ≤ utf8Len x
  case neg =>
    refine .inl ?_
    rw [decide_eq_false hle]
    rfl
  case pos =>
    refine .inr ?_
    rw [hr.copied] at hle ⊢
    have hx : x <+: content := ⟨quote :: f.text ++ [quote] ++ y, by rw [hcx]; simp⟩
    have ⟨kept, hk⟩ := prefix_of_utf8Len_le hr.split hx hle
    have hkept : slice (utf8Len (joined cuts)) (utf8Len x) content = some kept := by
      rw [hcx, ← hk, List.append_assoc]
      exact slice_append
    have hliteral : slice (utf8Len x) (utf8Len (x ++ (quote :: f.text ++ [quote]))) content =
        some (quote :: f.text ++ [quote]) := by
      rw [hcx]
      exact slice_append
    rw [decide_eq_true hle, hkept, hliteral]
    have hcut (body : List Char) (hbody : body = rendering.body ++ kept ++
        redirect.text (quote :: f.text ++ [quote])) :
        Rendered content redirect (cuts ++ [⟨kept, quote :: f.text ++ [quote]⟩])
          ⟨body, utf8Len (x ++ (quote :: f.text ++ [quote])), rendering.replaced + 1⟩ := by
      have hj : joined (cuts ++ [⟨kept, quote :: f.text ++ [quote]⟩]) =
          x ++ (quote :: f.text ++ [quote]) := by
        rw [joined_append, joined_single, ← hk, List.append_assoc]
      refine ⟨⟨y, by rw [hj, hcx]⟩, ?_, by rw [hj], by simp [hr.replaced]⟩
      rw [hbody, hr.body, redirected_append, redirected_single, List.append_assoc]
    cases ho : redirect.isOwner
    case none =>
      exact ⟨kept, _, rfl, hk.symm, hcut _ (by rw [Redirect.text, ho])⟩
    case some =>
      exact ⟨kept, _, rfl, hk.symm, hcut _ (by rw [Redirect.text, ho])⟩

-- What's done with one occurrence.
theorem redirectOne_cases (hc : content = f.before ++ f.text ++ f.after)
    (hr : Rendered content redirect cuts rendering) :
    redirectOne content redirect rendering f.occurrence = .error missing ∨
      (¬Quoted f.before f.after ∧ f.exact = false ∧
        redirectOne content redirect rendering f.occurrence = .ok rendering) ∨
      ∃ quote x y kept rendering', isQuote quote ∧ f.before = x ++ [quote] ∧
        f.after = quote :: y ∧ x = joined cuts ++ kept ∧
        redirectOne content redirect rendering f.occurrence = .ok rendering' ∧
        Rendered content redirect (cuts ++ [⟨kept, quote :: f.text ++ [quote]⟩]) rendering' := by
  obtain ⟨hn, hw⟩ | ⟨quote, x, y, hq, hb, ha, hw⟩ := wholeQuote_eq hc
  · cases he : f.exact
    case true =>
      have he : f.occurrence.exact = true := he
      refine .inl ?_
      simp only [redirectOne, hw, bind, Except.bind, he, if_true]
      rfl
    case false =>
      have he : f.occurrence.exact = false := he
      refine .inr <| .inl ⟨hn, rfl, ?_⟩
      simp only [redirectOne, hw, bind, Except.bind, he, Bool.false_eq_true, if_false]
      rfl
  · refine (redirectOne_quoted hc hr hb ha hw).imp_right fun h => ?_
    have ⟨kept, rendering', ho, hx, hr'⟩ := h
    exact .inr ⟨quote, x, y, kept, rendering', hq, hb, ha, hx, ho, hr'⟩

-- A bundle that was rendered up to the last of some occurrences.
structure Passed (content needle : List Char) (redirect : Redirect) (fs : List Found)
    (cuts : List Cut) (rendering : Rendering) : Prop where
  rendered : Rendered content redirect cuts rendering
  literals : ∀ c ∈ cuts, Literal needle c.literal
  quoted   : ∀ f ∈ fs, Quoted f.before f.after → f.before.length - 1 ∈ startsAfter 0 cuts
  exact    : ∀ f ∈ fs, f.exact → Quoted f.before f.after
  starts   : ∀ n ∈ startsAfter 0 cuts, ∃ f ∈ fs, f.before.length = n + 1

theorem Passed.one (h : Passed content needle redirect fs cuts rendering)
    (hf : f.Valid needle content) :
    redirectOne content redirect rendering f.occurrence = .error missing ∨
      ∃ cuts' rendering', redirectOne content redirect rendering f.occurrence = .ok rendering' ∧
        Passed content needle redirect (fs ++ [f]) cuts' rendering' := by
  refine (redirectOne_cases hf.split h.rendered).imp_right ?_
  rintro (⟨hn, he, ho⟩ | ⟨quote, x, y, kept, rendering', hq, hb, ha, hx, ho, hr⟩)
  · refine ⟨cuts, rendering, ho, h.rendered, h.literals, ?_, ?_, ?_⟩
    · simp only [List.mem_append, List.mem_singleton]
      rintro g (hg | rfl) hquoted
      · exact h.quoted g hg hquoted
      · exact absurd hquoted hn
    · simp only [List.mem_append, List.mem_singleton]
      rintro g (hg | rfl) hexact
      · exact h.exact g hg hexact
      · rw [he] at hexact
        cases hexact
    · intro n hn
      have ⟨g, hg, hl⟩ := h.starts n hn
      exact ⟨g, List.mem_append_left _ hg, hl⟩
  · have hl : f.before.length = (joined cuts).length + kept.length + 1 := by
      simp only [hb, hx, List.length_append, List.length_singleton]
    have hs : startsAfter 0 (cuts ++ [⟨kept, quote :: f.text ++ [quote]⟩]) =
        startsAfter 0 cuts ++ [(joined cuts).length + kept.length] := by
      rw [startsAfter_append, Nat.zero_add]
      rfl
    refine ⟨_, rendering', ho, hr, ?_, ?_, ?_, ?_⟩
    · simp only [List.mem_append, List.mem_singleton]
      rintro c (hc | rfl)
      · exact h.literals c hc
      · exact ⟨quote, f.text, hq, hf.occurs, rfl⟩
    · rw [hs]
      simp only [List.mem_append, List.mem_singleton]
      rintro g (hg | rfl) hquoted
      · exact .inl (h.quoted g hg hquoted)
      · exact .inr (by omega)
    · simp only [List.mem_append, List.mem_singleton]
      rintro g (hg | rfl) hexact
      · exact h.exact g hg hexact
      · exact ⟨quote, x, y, hq, hb, ha⟩
    · rw [hs]
      simp only [List.mem_append, List.mem_singleton]
      rintro n (hn | rfl)
      · have ⟨g, hg, hl⟩ := h.starts n hn
        exact ⟨g, .inl hg, hl⟩
      · exact ⟨f, .inr rfl, hl⟩

theorem Passed.run (h : Passed content needle redirect fs cuts rendering) {gs : List Found}
    (hg : ∀ g ∈ gs, g.Valid needle content) :
    (gs.map Found.occurrence).foldlM (redirectOne content redirect) rendering = .error missing ∨
      ∃ cuts' rendering', (gs.map Found.occurrence).foldlM (redirectOne content redirect) rendering =
          .ok rendering' ∧ Passed content needle redirect (fs ++ gs) cuts' rendering' := by
  induction gs generalizing fs cuts rendering
  case nil => exact .inr ⟨cuts, rendering, rfl, by rwa [List.append_nil]⟩
  case cons g gs hi =>
    rw [List.map_cons, List.foldlM_cons]
    obtain ho | ⟨cuts', rendering', ho, h'⟩ := h.one (hg g List.mem_cons_self)
    · exact .inl (by rw [ho]; rfl)
    · have hi := hi h' fun g hm => hg g (List.mem_cons_of_mem _ hm)
      rw [List.append_assoc, List.singleton_append] at hi
      rw [ho]
      exact hi

-- A bundle's endpoints are either refused or redirected.
theorem redirectEndpoints_cases (content needle : List Char) (redirect : Redirect) :
    redirectEndpoints content needle redirect = .error missing ∨
      ∃ cuts rendering rest, redirectEndpoints content needle redirect =
          .ok (redirected redirect cuts ++ rest) ∧ content = joined cuts ++ rest ∧ cuts ≠ [] ∧
        Passed content needle redirect (founds content needle) cuts rendering := by
  have hstart : Passed content needle redirect [] [] ⟨[], 0, 0⟩ :=
    ⟨⟨List.nil_prefix, rfl, rfl, rfl⟩, nofun, nofun, nofun, nofun⟩
  simp only [redirectEndpoints, needleOccurrences_eq, checked_some, bind, Except.bind]
  obtain ho | ⟨cuts, rendering, ho, h⟩ := hstart.run fun _ => valid_founds
  · exact .inl (by rw [ho])
  · rw [List.nil_append] at h
    have ⟨rest, hrest⟩ := h.rendered.split
    simp only [ho]
    cases cuts
    case nil =>
      refine .inl ?_
      rw [h.rendered.replaced]
      rfl
    case cons c cs =>
      refine .inr ⟨c :: cs, rendering, rest, ?_, hrest.symm, by simp, h⟩
      have hs : sliceFrom rendering.copied content = some rest := by
        rw [h.rendered.copied, ← hrest, sliceFrom_append]
      rw [hs, h.rendered.replaced, h.rendered.body]
      rfl

end Loop

section Overlooked

variable {content needle isOwner rest rest' : List Char} {redirect : Redirect}
  {cuts cuts' : List Cut} {rendering : Rendering}

theorem occurs_self (needle : List Char) : Occurs needle needle := by
  cases hs : splitOnce hole needle
  case none => rw [Occurs, hs]
  case some r =>
    rw [Occurs, hs]
    have hc : isNameChar 't' ∧ oneOf Bytes.isDigit 't' = false := ⟨rfl, rfl⟩
    refine ⟨['t'], ⟨by simp, fun c hm => ?_, fun c hm => ?_⟩,
      ((text_eq_needle_iff hs).mpr rfl).symm⟩
    · rw [List.mem_singleton.mp hm]
      exact hc.left
    · cases hm
      rw [hc.right]
      decide

theorem Passed.redirected
    (h : Passed content needle redirect (founds content needle) cuts rendering)
    (hc : content = joined cuts ++ rest) (hn : cuts ≠ []) (ho : NoneOverlooked needle content) :
    Redirected needle redirect content (redirected redirect cuts ++ rest) cuts rest where
  split    := hc
  body     := rfl
  nonempty := hn
  literals := h.literals
  all x l y he hl := by
    have ⟨quote, text, hq, hocc, hl⟩ := hl
    have hx : content = (x ++ [quote]) ++ text ++ quote :: y := by
      rw [he, hl]
      simp
    have hquoted : Quoted (x ++ [quote]) (quote :: y) := ⟨quote, x, y, hq, rfl, rfl⟩
    have ⟨_, hm⟩ := ho _ _ _ hx hocc (.inr hquoted)
    have ⟨f, hf, hb, _, ha⟩ := mem_founds hx hocc hm
    have hs := h.quoted f hf (hb ▸ ha ▸ hquoted)
    rwa [hb, List.length_append, List.length_singleton, Nat.add_sub_cancel] at hs
  exact x y he := by
    have ⟨_, hm⟩ := ho x needle y he (occurs_self needle) (.inl rfl)
    have ⟨f, hf, hb, ht, ha⟩ := mem_founds he (occurs_self needle) hm
    exact hb ▸ ha ▸ h.exact f hf ((valid_founds hf).exact.mpr ht)

theorem mem_startsAfter {n m : Nat} (h : m ∈ startsAfter n cuts) :
    ∃ a c b, cuts = a ++ c :: b ∧ m = n + (joined a ++ c.kept).length := by
  induction cuts generalizing n
  case nil => cases h
  case cons c cuts hi =>
    rw [startsAfter, List.mem_cons] at h
    rcases h with h | h
    · exact ⟨[], c, cuts, rfl, h⟩
    · have ⟨a, d, b, hc, hm⟩ := hi h
      refine ⟨c :: a, d, b, by rw [hc]; rfl, ?_⟩
      have hj : joined (c :: a) = c.kept ++ c.literal ++ joined a := List.flatMap_cons
      rw [hm, hj]
      simp only [List.length_append]
      omega

theorem length_startsAfter (n : Nat) : (startsAfter n cuts).length = cuts.length := by
  induction cuts generalizing n
  case nil => rfl
  case cons c cuts hi => rw [startsAfter, List.length_cons, hi, List.length_cons]

theorem Literal.ne_nil {literal : List Char} (h : Literal needle literal) : literal ≠ [] := by
  have ⟨_, _, _, _, hl⟩ := h
  simp [hl]

theorem nodup_startsAfter (h : ∀ c ∈ cuts, Literal needle c.literal) (n : Nat) :
    (startsAfter n cuts).Nodup := by
  induction cuts generalizing n
  case nil => exact List.nodup_nil
  case cons c cuts hi =>
    rw [startsAfter, List.nodup_cons]
    refine ⟨fun hm => ?_, hi (fun d hd => h d (List.mem_cons_of_mem _ hd)) _⟩
    have ⟨_, _, _, _, he⟩ := mem_startsAfter hm
    have := List.length_pos_of_ne_nil (h c List.mem_cons_self).ne_nil
    omega

-- A test for the owner makes every literal longer, all of them by as much.
theorem length_redirected (ho : redirect.isOwner = some isOwner) :
    (redirected redirect cuts).length =
      (joined cuts).length + cuts.length * (isOwner.length + redirect.replacement.length + 4) := by
  induction cuts
  case nil => simp [redirected, joined]
  case cons c cuts hi =>
    have hj : joined (c :: cuts) = c.kept ++ c.literal ++ joined cuts := List.flatMap_cons
    have hr : redirected redirect (c :: cuts) =
        c.kept ++ redirect.text c.literal ++ redirected redirect cuts := List.flatMap_cons
    rw [hj, hr, List.length_append, hi, Redirect.text, ho]
    simp only [List.length_append, List.length_cons, List.length_nil, Nat.add_mul]
    omega

theorem subset_starts (hc : content = joined cuts ++ rest)
    (hl : ∀ c ∈ cuts, Literal needle c.literal) {body : List Char}
    (hr : Redirected needle redirect content body cuts' rest') :
    startsAfter 0 cuts ⊆ startsAfter 0 cuts' := by
  intro n hn
  have ⟨a, c, b, hcuts, hn⟩ := mem_startsAfter hn
  rw [Nat.zero_add] at hn
  rw [hn]
  apply hr.all _ c.literal (joined b ++ rest)
  · have hj : joined (c :: b) = c.kept ++ c.literal ++ joined b := List.flatMap_cons
    rw [hc, hcuts, joined_append, hj]
    simp
  · exact hl c (by rw [hcuts]; simp)

-- All endpoints were redirected only if none was overlooked.
theorem Passed.noneOverlooked
    (h : Passed content needle redirect (founds content needle) cuts rendering)
    (hc : content = joined cuts ++ rest) (ho : redirect.isOwner = some isOwner)
    (hr : Redirected needle redirect content (Bundle.redirected redirect cuts ++ rest) cuts' rest') :
    NoneOverlooked needle content := by
  intro x text y he hocc hor
  have hquoted : Quoted x y := hor.elim (fun ht => hr.exact x y (ht ▸ he)) id
  have ⟨quote, x', y', hq, hx, hy⟩ := hquoted
  by_contra hno
  have hmem : x'.length ∈ startsAfter 0 cuts' := by
    refine hr.all x' (quote :: text ++ [quote]) y' ?_ ⟨quote, text, hq, hocc, rfl⟩
    rw [he, hx, hy]
    simp
  have hmiss : x'.length ∉ startsAfter 0 cuts := by
    intro hm
    have ⟨f, hf, hl⟩ := h.starts _ hm
    have hv := valid_founds hf
    have hb : f.before = x := by
      have hlen : f.before.length = x.length := by rw [hl, hx, List.length_append]; rfl
      have hsplit := hv.split.symm.trans he
      rw [List.append_assoc, List.append_assoc] at hsplit
      exact (List.append_inj hsplit hlen).left
    exact hno (hb ▸ hv.found)
  have hcount : (x'.length :: startsAfter 0 cuts).length ≤ (startsAfter 0 cuts').length := by
    apply List.Subperm.length_le
    apply List.subperm_of_subset
    · exact List.nodup_cons.mpr ⟨hmiss, nodup_startsAfter h.literals 0⟩
    · exact List.cons_subset.mpr ⟨hmem, subset_starts hc h.literals hr⟩
  have hl₁ := congrArg List.length hc
  have hl₂ := congrArg List.length hr.split
  have hl₃ := congrArg List.length hr.body
  rw [List.length_append] at hl₁ hl₂
  rw [List.length_append, List.length_append, length_redirected ho, length_redirected ho] at hl₃
  have heq : cuts.length = cuts'.length := by
    apply Nat.eq_of_mul_eq_mul_right
      (show 0 < isOwner.length + redirect.replacement.length + 4 by omega)
    omega
  rw [List.length_cons, length_startsAfter, length_startsAfter] at hcount
  omega

end Overlooked

end Patch.Bundle
