import Superkiro.Wire.Chunking
import Superkiro.Wire.RoundTrip

namespace Wire.Decoder

variable {d d' : Decoder} {c rest : Bytes} {frame : Frame} {e : ParseError}
  {os : List (ParseResult Frame)} {ws before after : List (Bytes × Frame)}

-- The bytes of one valid frame.
def Whole (w : Bytes × Frame) : Prop := parseFrame w.1 = .ok (some (w.2, w.1.length))

def bytes (ws : List (Bytes × Frame)) : Bytes := ws.flatMap (·.1)

-- Bytes that a prelude delimits but that aren't a frame.
structure Corrupt (c : Bytes) (e : ParseError) : Prop where
  prelude : parsePrelude c = .ok (some c.length)
  error   : parseFrame c = .error e

-- A corrupt frame between valid ones comes to one error, however the stream is cut.
def CostsOneFrame (c : Bytes) (e : ParseError) : Prop :=
  ∀ before after, (∀ w ∈ before, Whole w) → (∀ w ∈ after, Whole w) →
    ∀ chunks : List Bytes, chunks.flatten = bytes before ++ c ++ bytes after → new.Fits chunks →
      (new.run chunks).1 = before.map (.ok ·.2) ++ .error e :: after.map (.ok ·.2) ∧
      (new.run chunks).2.state ≠ .stopped

-- A message whose checksum or header length is wrong, or in which a header without a name comes
-- before any other that can't be read.
def Skipped (c : Bytes) : Prop :=
  crc32 (c.take (c.length - 4)) ≠ be32 (c.drop (c.length - 4)) ∨
  preludeSize + headerLength c > c.length - 4 ∨
  ∃ problem, parseHeaders ((c.drop preludeSize).take (headerLength c)) (headerLength c) =
    .error (.headerParseFailed problem)

theorem Whole.parse {w : Bytes × Frame} (h : Whole w) :
    parseFrame (w.1 ++ rest) = .ok (some (w.2, w.1.length)) := by
  have h : parseFrame w.1 = _ := h
  rw [parseFrame_append (by simp [h]), h]

-- Valid frames are given one by one, and leave what follows them.
theorem drains_frames (h : ∀ w ∈ ws, Whole w) (hs : d.state ≠ .stopped)
    (hb : d.buffer = bytes ws ++ rest) :
    ∃ d', d'.buffer = rest ∧ d'.state ≠ .stopped ∧ d'.errorCount ≤ d.errorCount ∧
      d'.maxErrors = d.maxErrors ∧
      ∀ os d'', Drains pull d' os d'' → Drains pull d (ws.map (.ok ·.2) ++ os) d'' := by
  induction ws generalizing d
  case nil => exact ⟨d, hb, hs, le_refl _, rfl, fun _ _ h => h⟩
  case cons w ws hi =>
    have hb : d.buffer = w.1 ++ (bytes ws ++ rest) := by simp [hb, bytes]
    have hw : parseFrame d.buffer = .ok (some (w.2, w.1.length)) := hb ▸ (h w (by simp)).parse
    have ha : (d.accept w.1.length).buffer = bytes ws ++ rest := by simp [accept, hb]
    obtain ⟨d', hd', hs', he, hm, hd⟩ := hi (fun w hm => h w (by simp [hm]))
      (d := d.accept w.1.length) (by simp [accept]) ha
    have ht : d.Turn _ := .frame hs hw
    exact ⟨d', hd', hs', he.trans (Nat.zero_le _), hm, fun os d'' h => .next ht.pull (hd os d'' h)⟩

theorem Corrupt.min (h : Corrupt c e) : 16 ≤ c.length :=
  (parsePrelude_eq_some.mp h.prelude).left.min

theorem Corrupt.total (h : Corrupt c e) : totalLength (c ++ rest) = c.length := by
  have hd := (parsePrelude_eq_some.mp h.prelude).left
  have hp : preludeSize = 12 := rfl
  have hmin := h.min
  exact (hd.append (by omega)).total

theorem Corrupt.parse (h : Corrupt c e) : parseFrame (c ++ rest) = .error e := by
  rw [parseFrame_append (by simp [h.error]), h.error]

-- One error doesn't stop a decoder that had none before.
theorem Corrupt.pull (h : Corrupt c e) (hs : d.state ≠ .stopped) (hb : d.buffer = c ++ rest)
    (he : d.errorCount + 1 < d.maxErrors) :
    ∃ d', d.pull = (some (.error e), d') ∧ d'.state ≠ .stopped ∧
      d'.buffer = (c ++ rest).drop (if e.inMessage then c.length else 1) := by
  have hp : parseFrame d.buffer = .error e := hb ▸ h.parse
  have hmin := h.min
  have hp' : preludeSize = 12 := rfl
  have ht : d.Turn _ := .error hs hp
  have hne : d.buffer ≠ [] := by
    intro hn
    rw [hb, List.append_eq_nil_iff] at hn
    simp [hn.left] at hmin
  have hr : recovery d.buffer e = if e.inMessage then c.length else 1 := by
    rw [recovery, hb, h.total]
    by_cases hi : e.inMessage
    case pos =>
      rw [if_pos ⟨hi, by rw [List.length_append]; omega, hmin, by simp⟩, if_pos hi]
    case neg => simp [hi]
  have hm : ¬d.errorCount + 1 ≥ d.maxErrors := Nat.not_le.mpr he
  refine ⟨(d.fail e).2, ?_, ?_, ?_⟩
  · rw [ht.pull]
    simp [fail, hm]
  · simp [fail, hm]
  · rw [←hb, ←hr]
    simp [fail, hm, tryRecover, hne, skip]

-- What is skipped is the corrupt frame.
theorem costsOneFrame (h : Corrupt c e) (hi : e.inMessage) : CostsOneFrame c e := by
  intro before after hbefore hafter chunks hc hf
  have hb : (new.extend chunks.flatten).buffer = bytes before ++ (c ++ bytes after) := by
    simp [extend, new, hc]
  obtain ⟨d₁, hb₁, hs₁, he₁, hm₁, hd₁⟩ := drains_frames hbefore (by simp [extend, new]) hb
  have he : d₁.errorCount + 1 < d₁.maxErrors := by
    have hm : d₁.maxErrors = 5 := hm₁
    have he : d₁.errorCount ≤ 0 := he₁
    omega
  obtain ⟨d₂, hp, hs₂, hb₂⟩ := h.pull hs₁ hb₁ he
  rw [if_pos hi, List.drop_left, ←List.append_nil (bytes after)] at hb₂
  obtain ⟨d₃, hb₃, hs₃, _, _, hd₃⟩ := drains_frames hafter hs₂ hb₂
  have ht : d₃.Turn _ := .waits hs₃ (hb₃ ▸ parseFrame_nil)
  have hd := hd₁ _ _ (.next hp (hd₃ _ _ (.halt ht.pull)))
  obtain ⟨d', hr, hd'⟩ := run_drains idle_new hf
  obtain ⟨ho, hd''⟩ := hr.deterministic hd
  refine ⟨by simp [ho], ?_⟩
  rw [←hd' (by simp [hd'', wait]), hd'']
  simp [wait]

theorem new_maxBufferSize : new.maxBufferSize = maxMessageSize :=
  rfl

theorem pull_maxBufferSize : d.pull.2.maxBufferSize = d.maxBufferSize := by
  have ht := d.turn
  generalize d.pull = r at ht
  cases ht
  case stopped => rfl
  case waits => rfl
  case frame => rfl
  case error e _ _ =>
    simp only [fail]
    split
    · rfl
    · simp only [tryRecover]
      split <;> rfl

theorem drains_maxBufferSize (h : Drains pull d os d') : d'.maxBufferSize = d.maxBufferSize := by
  induction h
  case halt h => exact congrArg (·.2.maxBufferSize) h ▸ pull_maxBufferSize
  case next h _ hi => exact hi.trans (congrArg (·.2.maxBufferSize) h ▸ pull_maxBufferSize)

theorem fits_whole {data : Bytes} (h : data.length ≤ maxMessageSize) : new.Fits [data] := by
  refine ⟨fun size max hf => ?_, trivial⟩
  rw [feed, if_neg (by simp [new]), if_neg] at hf
  · cases hf
  · have hl : new.buffer.length = 0 := rfl
    rw [new_maxBufferSize, hl]
    omega

-- A decoder that waits for more always has room for a byte.
theorem fits_singles {data : Bytes} (h : d.Idle) (hm : d.maxBufferSize = maxMessageSize) :
    d.Fits (data.map fun b => [b]) := by
  induction data generalizing d
  case nil => trivial
  case cons b data hi =>
    refine ⟨?_, ?_⟩
    · intro size max hf
      by_cases hs : d.state = .stopped
      case pos => simp [feed_stopped hs, stoppedError] at hf
      case neg =>
        have ht : d.Turn (none, d) := h ▸ d.turn
        have hp : parseFrame d.buffer = .ok none := by
          generalize hr : (none, d) = r at ht
          cases ht <;> simp at hr
          case stopped hs' => exact absurd hs' hs
          case waits hp => exact hp
        have hl := parsePrelude_eq_none (parseFrame_eq_none hp)
        rw [feed, if_neg hs, if_neg] at hf
        · cases hf
        · simp only [List.length_singleton, hm]
          omega
    · refine hi (.of_drains (drains _)) ?_
      rw [drains_maxBufferSize (drains _), ←hm, feed]
      split
      · rfl
      · split <;> rfl

-- Frames that only differ in their last byte and the checksum after it.
def ending (n : Nat) (b : UInt8) : Bytes × Frame :=
  let payload := List.replicate n 0 ++ [b]
  (wrap [] payload, ⟨∅, payload⟩)

theorem ending_whole (h : n + 17 ≤ maxMessageSize) : Whole (ending n b) := by
  have hl : (wrap [] (List.replicate n 0 ++ [b])).length ≤ maxMessageSize := by
    rw [length_wrap]
    simp
    omega
  have hp : parseFrame (wrap [] (List.replicate n 0 ++ [b]) ++ []) = _ := parseFrame_wrap hl
  rwa [List.append_nil] at hp

theorem ending_eq : ∃ shared : Bytes, shared.length = 12 + n ∧
    ∀ b, ∃ last, (ending n b).1 = shared ++ last := by
  let lengths := BigEndian.encode 4 (12 + 0 + (n + 1) + 4) ++ BigEndian.encode 4 0
  refine ⟨withCrc lengths ++ List.replicate n 0, ?_, fun b => ?_⟩
  · rw [List.length_append, length_withCrc, List.length_replicate]
    simp [lengths]
  · exact ⟨b :: BigEndian.encode 4 (crc32 (withCrc lengths ++ (List.replicate n 0 ++ [b]))).toNat,
      by simp [ending, wrap, withCrc, lengths]⟩

-- What is left of a corrupt frame of which a byte was skipped.
theorem CostsOneFrame.afterwards (after : List (Bytes × Frame)) (hc : CostsOneFrame c e)
    (h : Corrupt c e) (hi : ¬e.inMessage) (hafter : ∀ w ∈ after, Whole w) : ∃ d d', d.state ≠ .stopped ∧
      d.buffer = c.drop 1 ++ bytes after ∧ Drains pull d (after.map (.ok ·.2)) d' := by
  let chunks := (c ++ bytes after).map fun b => [b]
  have hchunks : chunks.flatten = bytes [] ++ c ++ bytes after := by
    simp [chunks, bytes, ←List.flatMap_def]
  have hf : new.Fits chunks := fits_singles idle_new new_maxBufferSize
  obtain ⟨hr, _⟩ := hc [] after (by simp) hafter chunks hchunks hf
  obtain ⟨d', hd, _⟩ := run_drains idle_new hf
  rw [hr, List.map_nil, List.nil_append] at hd
  have hb : (new.extend chunks.flatten).buffer = c ++ bytes after := by
    simp [extend, new, hchunks, bytes]
  obtain ⟨d, hp, hs, hb⟩ := h.pull (by simp [extend, new]) hb (by simp [extend, new])
  have hmin := h.min
  rw [if_neg hi, List.drop_append_of_le_length (by omega)] at hb
  cases hd
  case next hp' hd =>
    rw [hp, Prod.mk.injEq] at hp'
    exact ⟨d, d', hs, hb, hp'.right ▸ hd⟩

-- A decoder that waits for the rest of a frame gives whatever turns out to be in it, and so can't
-- give two frames that only differ after it.
theorem CostsOneFrame.inMessage (hc : CostsOneFrame c e) (h : Corrupt c e) : e.inMessage := by
  by_contra hi
  have hmin := h.min
  have hlen : (c.drop 1).length = c.length - 1 := List.length_drop
  have hpre : preludeSize = 12 := rfl
  have hwait : parseFrame (c.drop 1) = .ok none := by
    have ⟨d, _, hs, hb, hd⟩ := CostsOneFrame.afterwards [] hc h hi (by simp)
    rw [bytes, List.flatMap_nil, List.append_nil] at hb
    cases hd
    case halt hp =>
      have ht := hp ▸ d.turn
      cases ht
      case stopped hs' => exact absurd hs' hs
      case waits _ hw => exact hb ▸ hw
  have hdel : ∃ n, Delimits (c.drop 1) n := by
    have hp := parseFrame_eq_none hwait
    cases prelude (c.drop 1)
    case short => omega
    case refused _ he _ =>
      rw [he] at hp
      cases hp
    case delimits n _ hd => exact ⟨n, hd⟩
  have ⟨n, hdel⟩ := hdel
  have hmax := hdel.max
  have ⟨m, hm⟩ : ∃ m, m + 17 = maxMessageSize := ⟨_, Nat.sub_add_cancel (by decide)⟩
  have ⟨shared, hshared, hend⟩ := ending_eq (n := m)
  have hframe (b : UInt8) : parseMessage ((c.drop 1 ++ shared).take n) = .ok (ending m b).2 := by
    have ⟨d, _, hs, hb, hd⟩ := CostsOneFrame.afterwards [ending m b] hc h hi
      (by simp [ending_whole hm.le])
    have ⟨last, hlast⟩ := hend b
    rw [bytes, List.flatMap_singleton, hlast, ←List.append_assoc] at hb
    cases hd
    case next hp hd =>
      have ht := hp ▸ d.turn
      cases ht
      case frame k _ hf =>
        have ⟨hk, _, hp⟩ := parseFrame_eq_some hf
        have hn : Delimits d.buffer n := by
          rw [hb, List.append_assoc]
          exact hdel.append (by omega)
        rw [←hk.total, hn.total, hb, List.take_append_of_le_length] at hp
        · exact hp
        · rw [List.length_append]
          omega
  have he : (ending m 0).2 = (ending m 1).2 := Except.ok.inj ((hframe 0).symm.trans (hframe 1))
  simp [ending] at he

-- Errors of a header that can't be read.
def OfHeader (e : ParseError) : Prop :=
  (∃ needed available, e = .incomplete needed available) ∨ (∃ t, e = .invalidHeaderType t) ∨
  ∃ problem, e = .headerParseFailed problem

theorem need_eq_error {data : Bytes} (h : need n data = .error e) : OfHeader e := by
  rw [need, Except.ensure] at h
  split at h <;> cases h
  exact .inl ⟨_, _, rfl⟩

theorem parseSized_eq_error {data : Bytes} (h : parseSized data = .error e) : OfHeader e := by
  simp only [parseSized, Except.bind_eq_error] at h
  rcases h with h | ⟨_, _, h | ⟨_, _, h⟩⟩
  · exact need_eq_error h
  · exact need_eq_error h
  · cases h

theorem parseHeaderValue_eq_error {data : Bytes} {type : HeaderValueType}
    (h : parseHeaderValue data type = .error e) : OfHeader e := by
  cases type <;> simp only [parseHeaderValue, Except.bind_eq_error, reduceCtorEq, and_false,
    exists_false, or_false] at h
  case byte | short | integer | long | timestamp | uuid => exact need_eq_error h
  case byteArray | string => exact parseSized_eq_error h

theorem tryFrom_eq_error (h : HeaderValueType.tryFrom t = .error e) : OfHeader e := by
  unfold HeaderValueType.tryFrom at h
  split at h <;> cases h
  exact .inr (.inl ⟨_, rfl⟩)

theorem parseHeader_eq_error {data : Bytes} {nameLen : UInt8}
    (h : parseHeader nameLen data = .error e) : OfHeader e := by
  simp only [parseHeader, Except.bind_eq_error] at h
  rcases h with h | ⟨_, _, h | ⟨_, _, h⟩⟩
  · rw [Except.ensure] at h
    split at h <;> cases h
    exact .inr (.inr ⟨_, rfl⟩)
  · exact need_eq_error h
  · split at h
    · cases h
      exact .inl ⟨_, _, rfl⟩
    · simp only [Except.bind_eq_error] at h
      rcases h with h | ⟨_, _, h | ⟨_, _, h⟩⟩
      · exact tryFrom_eq_error h
      · exact parseHeaderValue_eq_error h
      · cases h

theorem parseHeadersFrom_eq_error {data : Bytes} {headers : Headers}
    (h : parseHeadersFrom n data headers = .error e) : OfHeader e := by
  induction n generalizing data headers
  case zero => cases h
  case succ hi =>
    cases data
    case nil => cases h
    case cons =>
      simp only [parseHeadersFrom, Except.bind_eq_error] at h
      cases h
      case inl h => exact parseHeader_eq_error h
      case inr h =>
        obtain ⟨_, _, h⟩ := h
        exact hi h

theorem OfHeader.inMessage_iff (h : OfHeader e) :
    e.inMessage ↔ ∃ problem, e = .headerParseFailed problem := by
  rcases h with ⟨_, _, h⟩ | ⟨_, h⟩ | ⟨_, h⟩ <;> simp [h, ParseError.inMessage]

-- Which errors `parse_frame` has for a corrupt frame.
theorem Corrupt.inMessage_iff (h : Corrupt c e) : e.inMessage ↔ Skipped c := by
  have hm : parseMessage c = .error e := by
    have he := h.error
    rw [parseFrame, h.prelude] at he
    simp only [bind, Except.bind, List.take_length] at he
    split at he
    case h_1 hm =>
      cases he
      exact hm
    case h_2 => cases he
  have hpre : preludeSize = 12 := rfl
  have hbody : (c.take (c.length - 4)).length = c.length - 4 := by
    rw [List.length_take]
    omega
  simp only [parseMessage, hbody] at hm
  rw [Skipped]
  split at hm
  case isTrue hcrc =>
    cases hm
    simp [ParseError.inMessage, hcrc]
  case isFalse hcrc =>
    split at hm
    case isTrue hend =>
      cases hm
      simp [ParseError.inMessage, hend]
    case isFalse hend =>
      have hdata : (((c.take (c.length - 4)).take (preludeSize + headerLength c)).drop preludeSize) =
          (c.drop preludeSize).take (headerLength c) := by
        rw [List.take_take, Nat.min_eq_left (by omega), List.drop_take, Nat.add_sub_cancel_left]
      rw [hdata, Except.bind_eq_error] at hm
      cases hm
      case inr hm =>
        obtain ⟨_, _, hm⟩ := hm
        cases hm
      case inl hm =>
        have ho : OfHeader e := by
          simp only [parseHeaders, Except.bind_eq_error] at hm
          rcases hm with hm | ⟨_, _, hm⟩
          · exact need_eq_error hm
          · exact parseHeadersFrom_eq_error hm
        rw [ho.inMessage_iff, hm]
        simp [hcrc, hend]

-- A corrupt frame costs one frame exactly when the message is skipped for its error.
theorem costsOneFrame_iff (c : Bytes) (e : ParseError) (h : Corrupt c e) :
    CostsOneFrame c e ↔ Skipped c := by
  rw [←h.inMessage_iff]
  exact ⟨fun hc => hc.inMessage h, costsOneFrame h⟩

-- A frame whose checksum is wrong in its last byte.
def damaged : Bytes := (wrap [] [1, 2]).dropLast ++ [0]

theorem damaged_corrupt : Corrupt damaged (.messageCrcMismatch 0x3af89c00 0x3af89c2b) :=
  ⟨by decide +kernel, by decide +kernel⟩

theorem costsOneFrame_iff_damaged :
    CostsOneFrame damaged (.messageCrcMismatch 0x3af89c00 0x3af89c2b) ↔ Skipped damaged :=
  costsOneFrame_iff damaged _ damaged_corrupt

-- A frame with a header of a type that isn't known.
def unknownHeader : Bytes := wrap [1, 0x61, 10] []

theorem unknownHeader_corrupt : Corrupt unknownHeader (.invalidHeaderType 10) :=
  ⟨by decide +kernel, by decide +kernel⟩

-- The decoder looks for a frame at each of the next bytes and stops before it gets to the one that
-- follows.
theorem costsOneFrame_unknownHeader :
    (new.run [unknownHeader ++ wrap [] []]).2.state = .stopped ∧
    ¬∀ (c : Bytes) (e : ParseError), Corrupt c e → CostsOneFrame c e := by
  have hs : (new.run [unknownHeader ++ wrap [] []]).2.state = .stopped := by decide +kernel
  refine ⟨hs, fun h => ?_⟩
  have hw : Whole (wrap [] [], ⟨∅, []⟩) := by
    rw [Whole]
    decide +kernel
  have hc := h unknownHeader _ unknownHeader_corrupt [] [(wrap [] [], ⟨∅, []⟩)] (by simp)
    (by simp [hw]) [unknownHeader ++ wrap [] []] (by simp [bytes])
    (fits_whole (by simp only [unknownHeader, List.length_append, length_wrap]; decide))
  exact hc.right hs

end Wire.Decoder
