import Superkiro.Stream.Sse

namespace Gateway

variable {parseLine : String → Except ProviderError (List ProviderStreamEvent)}

theorem splitLines_append : splitLines (cs ++ ds) =
    ((splitLines cs).1 ++ (splitLines ((splitLines cs).2 ++ ds)).1,
      (splitLines ((splitLines cs).2 ++ ds)).2) := by
  induction cs
  case nil => simp [splitLines]
  case cons c cs hi =>
    simp only [List.cons_append, splitLines, hi]
    by_cases hc : c = '\n'
    case pos => simp [hc]
    case neg =>
      rw [if_neg hc, if_neg hc]
      cases (splitLines cs).1
      case nil => simp [splitLines, hc]
      case cons => simp

theorem length_splitLines : (Utf8.encode (splitLines cs).2).length ≤ (Utf8.encode cs).length := by
  induction cs
  case nil => simp [splitLines]
  case cons c cs hi =>
    simp only [splitLines]
    by_cases hc : c = '\n'
    case pos =>
      rw [if_pos hc, Utf8.encode_cons, List.length_append]
      exact hi.trans (Nat.le_add_left _ _)
    case neg =>
      rw [if_neg hc, Utf8.encode_cons, List.length_append]
      cases (splitLines cs).1
      case nil => simpa using hi
      case cons => exact hi.trans (Nat.le_add_left _ _)

namespace Pump

section

variable {p : Pump} {rest : List UInt8} {buffer : List Char} {lines : List (List Char)}

-- A pump with other buffers.
def rebuffer (rest : List UInt8) (buffer : List Char) (p : Pump) : Pump :=
  { p with byteBuffer := rest, buffer := buffer }

theorem parsed_rebuffer (line : String) : (p.rebuffer rest buffer).parsed parseLine line =
    ((p.parsed parseLine line).1, (p.parsed parseLine line).2.rebuffer rest buffer) := by
  unfold parsed passesOver
  split
  case isTrue => rfl
  case isFalse =>
    cases parseLine line
    case ok => rfl
    case error e =>
      cases e
      case parse =>
        dsimp only
        cases Text.stripPrefix line "data:"
        case none => rfl
        case some payload =>
          by_cases hp : !Text.startsWith (Text.trim payload) "\x7b" && !Text.startsWith (Text.trim payload) "["
          case pos => simp only [hp, if_true]
          case neg =>
            by_cases hg : p.garbled + 1 ≤ tolerated
            case pos => simp [hp, rebuffer, hg]
            case neg => simp [hp, rebuffer, hg]
      all_goals rfl

theorem respond_rebuffer (line : String)
    (r : Except ProviderError (List ProviderStreamEvent) × Pump) :
    respond line (r.1, r.2.rebuffer rest buffer) =
      ((respond line r).1, (respond line r).2.map (rebuffer rest buffer)) := by
  obtain ⟨result, p⟩ := r
  cases result
  case error => rfl
  case ok events =>
    simp only [respond]
    split <;> rfl

-- Lines are read the same whatever else is buffered.
theorem readLine_rebuffer (line : List Char) : (p.rebuffer rest buffer).readLine parseLine line =
    ((p.readLine parseLine line).1, (p.readLine parseLine line).2.map (rebuffer rest buffer)) := by
  unfold readLine
  split
  case isTrue => rfl
  case isFalse =>
    dsimp only
    split
    case isTrue => rfl
    case isFalse => rw [parsed_rebuffer, respond_rebuffer]

theorem readLines_rebuffer : (p.rebuffer rest buffer).readLines parseLine lines =
    ((p.readLines parseLine lines).1, (p.readLines parseLine lines).2.map (rebuffer rest buffer)) := by
  induction lines generalizing p
  case nil => rfl
  case cons line lines hi =>
    rw [readLines, readLines, readLine_rebuffer]
    cases p.readLine parseLine line with
    | mk items q =>
      cases q
      case none => rfl
      case some q => simp [hi]

-- What comes of reading, followed by what is sent after it.
def ends (r : List Item × Option Pump) (f : Pump → List Item) : List Item :=
  match r with
  | (items, none)   => items
  | (items, some p) => items ++ f p

theorem ends_readLines_append {ls ls' : List (List Char)} {f : Pump → List Item} :
    ends (p.readLines parseLine (ls ++ ls')) f =
      ends (p.readLines parseLine ls) fun q => ends (q.readLines parseLine ls') f := by
  induction ls generalizing p
  case nil => rfl
  case cons l ls hi =>
    rw [List.cons_append, readLines, readLines]
    cases p.readLine parseLine l with
    | mk items q =>
      cases q
      case none => rfl
      case some q =>
        have h := @hi q
        unfold ends at h ⊢
        dsimp only
        split at h <;> split at h <;> simp_all

theorem ends_rebuffer {f : Pump → List Item} :
    ends ((p.rebuffer rest buffer).readLines parseLine lines) f =
      ends (p.readLines parseLine lines) fun q => f (q.rebuffer rest buffer) := by
  rw [readLines_rebuffer]
  cases p.readLines parseLine lines with
  | mk items q => cases q <;> rfl

@[simp]
theorem rebuffer_rebuffer : (p.rebuffer rest buffer).rebuffer rest' buffer' = p.rebuffer rest' buffer' :=
  rfl

end

section

variable {p : Pump} {bytes more : List UInt8}

-- Bytes that are text, but for a character that isn't all there.
def Textual (rest : List UInt8) : Prop := rest = [] ∨ Utf8.unfinished rest

-- Nothing in the buffers can be read yet.
structure Settled (p : Pump) : Prop where
  bytes   : Utf8.decodeChar? p.byteBuffer = none
  textual : Textual p.byteBuffer
  lines   : splitLines p.buffer = ([], p.buffer)

def size (p : Pump) : Nat := (Utf8.encode p.buffer).length + p.byteBuffer.length

-- What a pump has in its buffers after more bytes, and the lines there are.
def text (p : Pump) (bytes : List UInt8) : List Char := (Utf8.fromUtf8 (p.byteBuffer ++ bytes)).1

def rest (p : Pump) (bytes : List UInt8) : List UInt8 := (Utf8.fromUtf8 (p.byteBuffer ++ bytes)).2

def lines (p : Pump) (bytes : List UInt8) : List (List Char) := (splitLines (p.buffer ++ p.text bytes)).1

def line (p : Pump) (bytes : List UInt8) : List Char := (splitLines (p.buffer ++ p.text bytes)).2

def after (p : Pump) (bytes : List UInt8) : Pump := p.rebuffer (p.rest bytes) (p.line bytes)

theorem text_append : p.text (bytes ++ more) = p.text bytes ++ (p.after bytes).text more := by
  rw [text, ← List.append_assoc, Utf8.fromUtf8_append]
  rfl

theorem rest_append : p.rest (bytes ++ more) = (p.after bytes).rest more := by
  rw [rest, ← List.append_assoc, Utf8.fromUtf8_append]
  rfl

theorem lines_append : p.lines (bytes ++ more) = p.lines bytes ++ (p.after bytes).lines more := by
  rw [lines, text_append, ← List.append_assoc, splitLines_append]
  rfl

theorem line_append : p.line (bytes ++ more) = (p.after bytes).line more := by
  rw [line, text_append, ← List.append_assoc, splitLines_append]
  rfl

theorem Settled.nil (h : p.Settled) : p.text [] = [] ∧ p.rest [] = p.byteBuffer ∧ p.lines [] = [] ∧
    p.line [] = p.buffer := by
  have ht : Utf8.fromUtf8 p.byteBuffer = ([], p.byteBuffer) := by
    have := @Utf8.fromUtf8_eq p.byteBuffer [] h.bytes
    exact this
  simp only [Pump.lines, line, text, Pump.rest, List.append_nil, ht, h.lines, and_self]

-- What was invalid stays so.
theorem textual_rest (h : Textual (p.rest (bytes ++ more))) : Textual (p.rest bytes) := by
  by_contra hn
  simp only [Textual, not_or, Bool.not_eq_true] at hn
  have ⟨hd, hu⟩ : Utf8.decodeChar? (p.rest bytes ++ more) = none ∧
      Utf8.unfinished (p.rest bytes ++ more) = false :=
    Utf8.invalid_append hn.left Utf8.decodeChar?_fromUtf8 hn.right
  have he : p.rest (bytes ++ more) = p.rest bytes ++ more := by
    rw [rest_append]
    exact congrArg Prod.snd (@Utf8.fromUtf8_eq _ [] hd)
  rw [he] at h
  cases h
  case inl h => exact hn.left (List.append_eq_nil_iff.mp h).left
  case inr h => rw [hu] at h; cases h

theorem size_after (p : Pump) (bytes : List UInt8) : (Utf8.encode (p.buffer ++ p.text bytes)).length + (p.rest bytes).length =
    p.size + bytes.length := by
  have h := congrArg List.length (Utf8.encode_fromUtf8 (p.byteBuffer ++ bytes))
  simp only [List.length_append, Utf8.encode_append, text, Pump.rest, size] at h ⊢
  omega

theorem feed_eq (hl : p.size + bytes.length ≤ maxSseBufferBytes) (ht : Textual (p.rest bytes)) :
    p.feed parseLine bytes = (p.after bytes).readLines parseLine (p.lines bytes) := by
  have hr : ¬ ((p.rest bytes ≠ [] && !Utf8.unfinished (p.rest bytes)) = true) := by
    cases ht
    case inl h => simp [h]
    case inr h => simp [h]
  have hb : ¬ maxSseBufferBytes < (Utf8.encode (p.buffer ++ p.text bytes)).length := by
    have := size_after p bytes
    omega
  exact (if_neg hr).trans (if_neg hb)

theorem feed_invalid (ht : ¬ Textual (p.rest bytes)) :
    p.feed parseLine bytes = ([.error invalidUtf8], none) := by
  have hr : (p.rest bytes ≠ [] && !Utf8.unfinished (p.rest bytes)) = true := by
    simpa [Textual] using ht
  exact if_pos hr

theorem settled_after (ht : Textual (p.rest bytes)) (q : Pump) :
    (q.rebuffer (p.rest bytes) (p.line bytes)).Settled := by
  refine ⟨Utf8.decodeChar?_fromUtf8, ht, ?_⟩
  have h := @splitLines_append (p.buffer ++ p.text bytes) []
  rw [List.append_nil, List.append_nil] at h
  have h₁ := List.self_eq_append_right.mp (congrArg Prod.fst h)
  exact Prod.ext h₁ (congrArg Prod.snd h).symm

-- What can be received of bytes: everything, or what was in their first lines before they turned
-- out to be no text.
inductive Told (parseLine : String → Except ProviderError (List ProviderStreamEvent)) (p : Pump)
    (bytes : List UInt8) : List Item → Prop
  | whole (ht : Textual (p.rest bytes)) :
    Told parseLine p bytes (ends (p.readLines parseLine (p.lines bytes)) fun q =>
      (q.rebuffer (p.rest bytes) (p.line bytes)).finish parseLine)
  | cut (ht : ¬ Textual (p.rest bytes)) (hl : ls <+: p.lines bytes) :
    Told parseLine p bytes (ends (p.readLines parseLine ls) fun _ => [.error invalidUtf8])

theorem told_run {chunks : List (List UInt8)} (hs : p.Settled)
    (hl : p.size + chunks.flatten.length ≤ maxSseBufferBytes) :
    Told parseLine p chunks.flatten (p.run parseLine (chunks.map .bytes)) := by
  induction chunks generalizing p
  case nil =>
    have ⟨_, hr, hls, hl⟩ := hs.nil
    have h : Told parseLine p [] _ := .whole (hr ▸ hs.textual)
    rw [hls, hr, hl] at h
    exact h
  case cons c cs hi =>
    rw [List.flatten_cons, List.length_append] at hl
    rw [List.map_cons, List.flatten_cons, run]
    by_cases ht : Textual (p.rest c)
    case neg =>
      rw [feed_invalid ht]
      exact .cut (mt textual_rest ht) (List.nil_prefix (l := p.lines (c ++ cs.flatten)))
    case pos =>
      rw [feed_eq (by omega) ht, after, readLines_rebuffer]
      cases hq : p.readLines parseLine (p.lines c) with
      | mk items q =>
        cases q
        case none =>
          by_cases hw : Textual (p.rest (c ++ cs.flatten))
          case pos =>
            have h : Told parseLine p (c ++ cs.flatten) _ := .whole hw
            rwa [lines_append, ends_readLines_append, hq] at h
          case neg =>
            have hp : p.lines c <+: p.lines (c ++ cs.flatten) := lines_append ▸ List.prefix_append _ _
            have h : Told parseLine p (c ++ cs.flatten) _ := .cut hw hp
            rwa [hq] at h
        case some q =>
          have hsize : (q.rebuffer (p.rest c) (p.line c)).size ≤ p.size + c.length := by
            have h₁ : (Utf8.encode (p.line c)).length ≤ _ := length_splitLines
            have h₂ := size_after p c
            simp only [size, rebuffer] at h₂ ⊢
            omega
          have hi := hi (settled_after ht q) (by omega)
          have he (ls : List (List Char)) (f : Pump → List Item) :
              ends (p.readLines parseLine (p.lines c ++ ls)) f =
                items ++ ends (q.readLines parseLine ls) f := by
            rw [ends_readLines_append, hq]
            rfl
          dsimp only [Option.map_some]
          generalize run parseLine _ _ = out at hi
          cases hi
          case whole hw =>
            rw [ends_rebuffer, ← he]
            have h : Told parseLine p (c ++ cs.flatten) _ := .whole (rest_append ▸ hw)
            rwa [lines_append, rest_append, line_append] at h
          case cut ls hw hl =>
            rw [ends_rebuffer, ← he]
            have hp : p.lines c ++ ls <+: p.lines (c ++ cs.flatten) := by
              rw [lines_append]
              exact (List.prefix_append_right_inj _).mpr hl
            exact .cut (rest_append ▸ hw) hp

end

-- A line for which nothing is sent.
structure Silent (parseLine : String → Except ProviderError (List ProviderStreamEvent))
    (line : List Char) : Prop where
  short : (Utf8.encode line).length ≤ maxSseLineBytes
  blank : Text.trim (.ofList line) = "" ∨ (Text.startsWith (Text.trim (.ofList line)) "event:" ∧
    parseLine (Text.trim (.ofList line)) = .ok [])

-- A line that is refused as if it had been no text.
structure Refused (parseLine : String → Except ProviderError (List ProviderStreamEvent))
    (line : List Char) : Prop where
  short   : (Utf8.encode line).length ≤ maxSseLineBytes
  nonempty : Text.trim (.ofList line) ≠ ""
  read    : Text.startsWith (Text.trim (.ofList line)) ":" = false
  noData  : Text.stripPrefix (Text.trim (.ofList line)) "data:" = none
  error   : parseLine (Text.trim (.ofList line)) = .error invalidUtf8

theorem Silent.not_refused {parseLine : String → Except ProviderError (List ProviderStreamEvent)}
    {line : List Char} (h : Silent parseLine line) : ¬ Refused parseLine line := by
  intro hr
  have hp := (h.blank.resolve_left hr.nonempty).right
  rw [hr.error] at hp
  cases hp

-- Lines of which nothing is heard when the bytes after them are no text.
def Unheard (parseLine : String → Except ProviderError (List ProviderStreamEvent)) :
    List (List Char) → Prop
  | []            => True
  | line :: lines => (Silent parseLine line ∧ Unheard parseLine lines) ∨ Refused parseLine line

section

variable {p : Pump} {line : List Char} {ls : List (List Char)}

theorem head_of_startsWith {l s : String} (h : Text.startsWith l s) (hs : s.toList.head? = some c) :
    l.toList.head? = some c := by
  have ⟨t, ht⟩ := List.isPrefixOf_iff_prefix.mp h
  rw [← ht, List.head?_append, hs]
  rfl

theorem startsWith_of_stripPrefix {l s payload : String} (h : Text.stripPrefix l s = some payload) :
    Text.startsWith l s := by
  simp only [Text.stripPrefix, Option.map_eq_some_iff] at h
  have ⟨t, ht, _⟩ := h
  have ⟨p, hp, he⟩ := List.dropPrefix?_eq_some_iff.mp ht
  exact List.isPrefixOf_iff_prefix.mpr ⟨t, by rw [hp, eq_of_beq he]⟩

-- What a line comes to.
inductive Spoken (parseLine : String → Except ProviderError (List ProviderStreamEvent)) (p : Pump)
    (line : List Char) : List Item × Option Pump → Prop
  | silent : Silent parseLine line → Spoken parseLine p line ([], some p)
  | refused : Refused parseLine line → Spoken parseLine p line ([.error invalidUtf8], none)
  | heard : ¬ Silent parseLine line → ¬ Refused parseLine line → item ≠ .error invalidUtf8 →
    Spoken parseLine p line (item :: items, q)

theorem spoken_readLine (hg : p.garbled < tolerated) (line : List Char) :
    Spoken parseLine p line (p.readLine parseLine line) := by
  unfold readLine
  split
  case isTrue hl =>
    refine .heard (fun h => ?_) (fun h => ?_) (by decide)
    · exact absurd h.short (by omega)
    · exact absurd h.short (by omega)
  case isFalse hl =>
    dsimp only
    split
    case isTrue he => exact .silent ⟨by omega, .inl he⟩
    case isFalse he =>
      generalize hline : Text.trim (.ofList line) = l at he
      have silent (h : Silent parseLine line) : Text.startsWith l "event:" ∧ parseLine l = .ok [] :=
        (hline ▸ h.blank).resolve_left he
      have event {s : String} (h : Text.startsWith l s) (hs : s.toList.head? ≠ some 'e')
          (hn : s.toList ≠ []) : Text.startsWith l "event:" = false := by
        rw [← Bool.not_eq_true]
        intro hev
        have hh := head_of_startsWith hev (by rfl)
        obtain ⟨c, cs, hc⟩ := List.exists_cons_of_ne_nil hn
        rw [head_of_startsWith h (by rw [hc]; rfl)] at hh
        exact hs (by rw [hc]; exact hh)
      -- What is passed over is liveness.
      have passed {q : Pump} (h : Text.startsWith l "event:" = false) (hr : ¬ Refused parseLine line) :
          Spoken parseLine p line (respond l (.ok [], q)) := by
        simp only [respond, h, List.isEmpty_nil, Bool.not_false, Bool.and_self, if_true]
        exact .heard (fun hs => by rw [(silent hs).left] at h; cases h) hr nofun
      unfold parsed
      split
      case isTrue hc =>
        exact passed (event hc (by decide) (by decide)) fun hr => by rw [← hline, hr.read] at hc; cases hc
      case isFalse hc =>
        have error (e : ProviderError) (hp : parseLine l = .error e)
            (hr : e = invalidUtf8 → Text.stripPrefix l "data:" = none) (q : Pump) :
            Spoken parseLine p line (respond l (.error e, q)) := by
          by_cases heq : e = invalidUtf8
          case pos =>
            subst heq
            subst hline
            exact .refused ⟨by omega, he, by simpa using hc, hr rfl, hp⟩
          case neg =>
            refine .heard (fun hs => ?_) (fun hr => ?_) (by simpa using heq)
            · rw [(silent hs).right] at hp
              cases hp
            · have h := hr.error
              rw [hline, hp] at h
              exact heq (Except.error.inj h)
        have parsed {events : List ProviderStreamEvent} (hp : parseLine l = .ok events) :
            ¬ Refused parseLine line := by
          intro hr
          have h := hr.error
          rw [hline, hp] at h
          cases h
        cases hp : parseLine l
        case ok events =>
          cases events
          case nil =>
            cases hev : Text.startsWith l "event:"
            case true =>
              simp only [respond, hev, emit, List.isEmpty_nil, Bool.not_true, Bool.and_false,
                List.contains_nil, Bool.or_false, List.map_nil]
              exact .silent ⟨by omega, .inr ⟨by rw [hline, hev], by rw [hline, hp]⟩⟩
            case false => exact passed hev (parsed hp)
          case cons event events =>
            exact .heard (fun hs => by rw [(silent hs).right] at hp; cases hp) (parsed hp) nofun
        case error e =>
          cases e
          case parse text =>
            dsimp only
            unfold passesOver
            cases hs : Text.stripPrefix l "data:"
            case none => exact error _ hp (fun _ => hs) p
            case some payload =>
              have hev := event (startsWith_of_stripPrefix hs) (by decide) (by decide)
              have hr : ¬ Refused parseLine line := by
                intro hr
                have h := hr.noData
                rw [hline, hs] at h
                cases h
              by_cases hb : !Text.startsWith (Text.trim payload) "\x7b" &&
                  !Text.startsWith (Text.trim payload) "["
              case pos =>
                simp only [hb, if_true]
                exact passed hev hr
              case neg =>
                simp only [hb, Nat.succ_le_iff.mpr hg, decide_true]
                exact passed hev hr
          all_goals exact error _ hp (fun h => by cases h) p

-- Nothing is heard but that the bytes after the lines are no text.
theorem ends_readLines_iff (hg : p.garbled < tolerated) :
    ends (p.readLines parseLine ls) (fun _ => [.error invalidUtf8]) = [.error invalidUtf8] ↔
      Unheard parseLine ls := by
  induction ls
  case nil => simp [readLines, ends, Unheard]
  case cons l ls hi =>
    have hl : Spoken parseLine p l _ := spoken_readLine hg l
    rw [readLines, Unheard]
    generalize p.readLine parseLine l = r at hl
    cases hl
    case silent hs => simpa [hs, hs.not_refused] using hi
    case refused hr => simp [ends, hr]
    case heard item items q hs hr hn =>
      simp only [hs, hr, false_and, or_self, iff_false]
      cases q
      case none =>
        intro h
        exact hn (List.cons.inj h).left
      case some q =>
        intro h
        cases hq : q.readLines parseLine ls with
        | mk more q' =>
          simp only [hq] at h
          cases q'
          case none => exact hn (List.cons.inj h).left
          case some => exact hn (List.cons.inj h).left

theorem Unheard.initial {ls' : List (List Char)} (h : Unheard parseLine ls) (hp : ls' <+: ls) :
    Unheard parseLine ls' := by
  induction ls generalizing ls'
  case nil => rwa [List.prefix_nil.mp hp]
  case cons l ls hi =>
    cases ls'
    case nil => trivial
    case cons l' ls' =>
      have ⟨he, ht⟩ := List.cons_prefix_cons.mp hp
      subst he
      exact h.imp_left fun h => ⟨h.left, hi h.right ht⟩

end
end Pump

-- The text of bytes up to where they are no text.
def validText (bytes : List UInt8) : List Char := (Utf8.fromUtf8 bytes).1

-- Bytes that no bytes after them make a text.
def InvalidUtf8 (bytes : List UInt8) : Prop :=
  (Utf8.fromUtf8 bytes).2 ≠ [] ∧ Utf8.unfinished (Utf8.fromUtf8 bytes).2 = false

-- Text may arrive before bytes that are no text do.
theorem processByteStream_cut {parseLine : String → Except ProviderError (List ProviderStreamEvent)}
    {cs : List Char} {rest : List UInt8} (hl : (Utf8.encode cs).length ≤ maxSseBufferBytes)
    (hd : Utf8.decodeChar? rest = none) (hn : rest ≠ []) (hu : Utf8.unfinished rest = false) :
    processByteStream parseLine ([Utf8.encode cs, rest].map .bytes) =
      Pump.ends (Pump.readLines parseLine {} (splitLines cs).1) fun _ => [.error invalidUtf8] := by
  have ht : Utf8.fromUtf8 ([] ++ Utf8.encode cs) = (cs, []) := by
    have h := @Utf8.fromUtf8_eq [] cs Utf8.decodeChar?_nil
    rwa [List.append_nil] at h
  have hr : Pump.rest {} (Utf8.encode cs) = [] := congrArg Prod.snd ht
  have hlines : Pump.lines {} (Utf8.encode cs) = (splitLines cs).1 := by
    rw [Pump.lines, Pump.text, ht]
    rfl
  have hfeed (q : Pump) (line : List Char) :
      (q.rebuffer [] line).feed parseLine rest = ([.error invalidUtf8], none) := by
    apply Pump.feed_invalid
    have he : (q.rebuffer [] line).rest rest = rest := congrArg Prod.snd (@Utf8.fromUtf8_eq rest [] hd)
    simp [Pump.Textual, he, hn, hu]
  rw [processByteStream, List.map_cons, Pump.run, Pump.feed_eq (by simpa [Pump.size] using hl) (.inl hr),
    Pump.after, Pump.readLines_rebuffer, hlines, hr]
  cases Pump.readLines parseLine {} (splitLines cs).1 with
  | mk items q =>
    cases q
    case none => rfl
    case some q => simp only [Option.map_some, List.map_cons, Pump.run, hfeed, Pump.ends]

-- What is received doesn't depend on how bytes arrive, exactly when they are text or nothing is heard
-- of the lines before they aren't.
theorem chunks_immaterial {parseLine : String → Except ProviderError (List ProviderStreamEvent)}
    {bytes : List UInt8} (hl : bytes.length ≤ maxSseBufferBytes) :
    (∀ chunks : List (List UInt8), chunks.flatten = bytes →
      processByteStream parseLine (chunks.map .bytes) = processByteStream parseLine [.bytes bytes]) ↔
      ¬ InvalidUtf8 bytes ∨ Pump.Unheard parseLine (splitLines (validText bytes)).1 := by
  have hs : Pump.Settled {} := ⟨Utf8.decodeChar?_nil, .inl rfl, rfl⟩
  have hd : InvalidUtf8 bytes ↔ ¬ Pump.Textual (Pump.rest {} bytes) := by
    simp only [Pump.Textual, not_or, Bool.not_eq_true]
    rfl
  have told {chunks : List (List UInt8)} (hc : chunks.flatten = bytes) :
      Pump.Told parseLine {} bytes (processByteStream parseLine (chunks.map .bytes)) := by
    have h : Pump.Told parseLine {} chunks.flatten (processByteStream parseLine (chunks.map .bytes)) :=
      Pump.told_run hs (by rw [hc]; simpa [Pump.size] using hl)
    rwa [hc] at h
  have whole : Pump.Told parseLine {} bytes (processByteStream parseLine [.bytes bytes]) :=
    @told [bytes] (by simp)
  by_cases hi : InvalidUtf8 bytes
  case neg =>
    refine iff_of_true (fun chunks hc => ?_) (.inl hi)
    have h := told hc
    generalize processByteStream parseLine [.bytes bytes] = out at whole
    generalize processByteStream parseLine (chunks.map .bytes) = out' at h
    cases whole
    case cut ht _ => exact absurd (hd.mpr ht) hi
    case whole =>
      cases h
      case cut ht _ => exact absurd (hd.mpr ht) hi
      case whole => rfl
  case pos =>
    have hone : processByteStream parseLine [.bytes bytes] = [.error invalidUtf8] := by
      rw [processByteStream, Pump.run, Pump.feed_invalid (hd.mp hi)]
    rw [or_iff_right (not_not.mpr hi), hone]
    constructor
    case mp =>
      intro h
      have hb : Utf8.encode (validText bytes) ++ (Utf8.fromUtf8 bytes).2 = bytes :=
        Utf8.encode_fromUtf8 bytes
      have hlen : (Utf8.encode (validText bytes)).length ≤ bytes.length := by
        have := congrArg List.length hb
        rw [List.length_append] at this
        omega
      have hcut : processByteStream parseLine _ = _ :=
        processByteStream_cut (hlen.trans hl) Utf8.decodeChar?_fromUtf8 hi.left hi.right
      rw [h _ (by simpa using hb)] at hcut
      exact (Pump.ends_readLines_iff (by decide)).mp hcut.symm
    case mpr =>
      intro hu chunks hc
      have h := told hc
      generalize processByteStream parseLine (chunks.map .bytes) = out at h
      cases h
      case whole ht => exact absurd ht (hd.mp hi)
      case cut ls _ hp =>
        exact (Pump.ends_readLines_iff (by decide)).mpr (hu.initial hp)

-- A stream of one line.
def sampleLine : List UInt8 := Utf8.encode "data: [DONE]\n".toList

theorem chunks_immaterial_line :
    processByteStream (fun _ => .ok [.done]) [.bytes (sampleLine.take 3), .bytes (sampleLine.drop 3)] =
      processByteStream (fun _ => .ok [.done]) [.bytes sampleLine] :=
  (chunks_immaterial (by decide +kernel)).mpr (.inl fun h => h.left (by decide +kernel))
    [sampleLine.take 3, sampleLine.drop 3] (by simp)

-- The line is lost where it arrives together with a byte that is no text.
theorem chunks_material : ¬∀ parseLine bytes, bytes.length ≤ maxSseBufferBytes →
    ∀ chunks : List (List UInt8), chunks.flatten = bytes →
      processByteStream parseLine (chunks.map .bytes) = processByteStream parseLine [.bytes bytes] := by
  intro h
  have h := h (fun _ => .ok [.done]) (sampleLine ++ [0xff]) (by decide +kernel) [sampleLine, [0xff]]
    (by simp)
  have hl := congrArg List.length h
  revert hl
  decide +kernel

end Gateway
