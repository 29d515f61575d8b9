import Superkiro.Wire.Decoder

namespace Wire.Decoder

-- What a turn comes to.
inductive Turn (d : Decoder) : Option (ParseResult Frame) × Decoder → Prop
  | stopped (hs : d.state = .stopped) : Turn d (none, d)
  | waits (hs : d.state ≠ .stopped) (h : parseFrame d.buffer = .ok none) :
    Turn d (none, d.wait)
  | frame (hs : d.state ≠ .stopped) (h : parseFrame d.buffer = .ok (some (frame, n))) :
    Turn d (some (.ok frame), d.accept n)
  | error (hs : d.state ≠ .stopped) (h : parseFrame d.buffer = .error e) :
    Turn d (some (.error (d.fail e).1), (d.fail e).2)

variable {d d' : Decoder} {more : Bytes} {frame : Frame} {e : ParseError}
  {os os' : List (ParseResult Frame)}

theorem parseFrame_nil : parseFrame [] = .ok none :=
  rfl

theorem Turn.pull {r : Option (ParseResult Frame) × Decoder} (h : d.Turn r) : d.pull = r := by
  cases h
  case stopped hs => rw [Decoder.pull, if_pos hs]
  case waits hs h =>
    by_cases he : d.buffer.isEmpty
    case pos => rw [Decoder.pull, if_neg hs, decode, if_neg hs, if_pos he]
    case neg => rw [Decoder.pull, if_neg hs, decode, if_neg hs, if_neg he, h]
  case frame hs h =>
    rw [Decoder.pull, if_neg hs, decode, if_neg hs, if_neg, h]
    intro he
    simp [List.isEmpty_iff.mp he, parseFrame_nil] at h
  case error hs h =>
    rw [Decoder.pull, if_neg hs, decode, if_neg hs, if_neg, h]
    intro he
    simp [List.isEmpty_iff.mp he, parseFrame_nil] at h

theorem turn (d : Decoder) : d.Turn d.pull := by
  by_cases hs : d.state = .stopped
  case pos =>
    have h := Turn.stopped hs
    exact h.pull ▸ h
  case neg =>
    cases hp : parseFrame d.buffer
    case error e =>
      have h := Turn.error hs hp
      exact h.pull ▸ h
    case ok r =>
      cases r
      case none =>
        have h := Turn.waits hs hp
        exact h.pull ▸ h
      case some r =>
        have h := Turn.frame hs hp
        exact h.pull ▸ h

-- What is skipped for an error has been looked at.
theorem recovery_append (more : Bytes) (h : parseFrame d.buffer = .error e) :
    recovery (d.buffer ++ more) e = recovery d.buffer e ∧ 1 ≤ recovery d.buffer e ∧
    recovery d.buffer e ≤ d.buffer.length := by
  have hpos : 1 ≤ d.buffer.length := by
    by_contra hl
    have hn : d.buffer = [] := List.eq_nil_of_length_eq_zero (by omega)
    simp [hn, parseFrame_nil] at h
  cases parseFrame_eq_error h
  case inl hm =>
    have hm := hm.right
    simpa [recovery, hm] using hpos
  case inr hm =>
    have ⟨n, hd, hn, _⟩ := hm
    have hmin : 16 ≤ n := hd.min
    have hp : preludeSize = 12 := rfl
    have hd' : Delimits (d.buffer ++ more) n := hd.append (by omega)
    simp only [recovery, hd.total, hd'.total, List.length_append]
    by_cases hi : e.inMessage
    case neg => simpa [hi] using hpos
    case pos =>
      rw [if_pos ⟨hi, by omega, by omega, by omega⟩, if_pos ⟨hi, by omega, by omega, by omega⟩]
      exact ⟨rfl, by omega, hn⟩

def extend (more : Bytes) (d : Decoder) : Decoder := { d with buffer := d.buffer ++ more }

theorem accept_extend (h : parseFrame d.buffer = .ok (some (frame, n))) :
    (d.extend more).accept n = (d.accept n).extend more := by
  have hn := (parseFrame_eq_some h).right.left
  simp [accept, extend, List.drop_append_of_le_length hn]

theorem fail_extend (h : parseFrame d.buffer = .error e) :
    (d.extend more).fail e = ((d.fail e).1, (d.fail e).2.extend more) := by
  have ⟨hr, hpos, hle⟩ := recovery_append more h
  have hne : d.buffer ≠ [] := by
    intro hn
    simp [hn, parseFrame_nil] at h
  by_cases hm : d.errorCount + 1 ≥ d.maxErrors
  case pos => simp [fail, extend, hm]
  case neg => simp [fail, extend, hm, tryRecover, skip, hne, hr, List.drop_append_of_le_length hle]

theorem parseFrame_extend (h : parseFrame d.buffer ≠ .ok none) :
    parseFrame (d.extend more).buffer = parseFrame d.buffer :=
  parseFrame_append h

-- A turn that gives something gives the same when there is more in the buffer.
theorem pull_extend {o : ParseResult Frame} (h : d.pull = (some o, d')) :
    (d.extend more).pull = (some o, d'.extend more) := by
  have ht := h ▸ d.turn
  cases ht
  case frame frame n hs hp =>
    have he : parseFrame (d.extend more).buffer = .ok (some (frame, n)) :=
      (parseFrame_extend (by simp [hp])).trans hp
    have ht : (d.extend more).Turn _ := .frame hs he
    rw [ht.pull, accept_extend hp]
  case error e hs hp =>
    have he : parseFrame (d.extend more).buffer = .error e :=
      (parseFrame_extend (by simp [hp])).trans hp
    have ht : (d.extend more).Turn _ := .error hs he
    rw [ht.pull, fail_extend hp]

-- The state is only looked at for whether the decoder has stopped.
theorem pull_wait (hs : d.state ≠ .stopped) : d.wait.pull = d.pull := by
  have hw : d.wait.state ≠ .stopped := by simp [wait]
  have ht := d.turn
  generalize d.pull = r at ht
  cases ht
  case stopped ht => exact absurd ht hs
  case waits hp =>
    have ht : d.wait.Turn _ := .waits hw hp
    exact ht.pull
  case frame hp =>
    have ht : d.wait.Turn _ := .frame hw hp
    exact ht.pull
  case error hp =>
    have ht : d.wait.Turn _ := .error hw hp
    exact ht.pull

theorem pull_extend_halted (h : d.pull = (none, d')) :
    (d.extend more).pull = (d'.extend more).pull := by
  have ht := h ▸ d.turn
  cases ht
  case stopped => rfl
  case waits hs _ =>
    have hw : (d.extend more).wait.pull = (d.extend more).pull := pull_wait hs
    exact hw.symm

-- The bytes left, and a turn more until the decoder has stopped.
def left (d : Decoder) : Nat := d.buffer.length + if d.state = .stopped then 0 else 1

theorem left_lt {o : ParseResult Frame} (h : d.pull = (some o, d')) : d'.left < d.left := by
  have ht := h ▸ d.turn
  cases ht
  case frame frame n hs hp =>
    have hn : 16 ≤ n := (parseFrame_eq_some hp).left.min
    have hl := (parseFrame_eq_some hp).right.left
    have hr : (d.accept n).state ≠ .stopped := by simp [accept]
    rw [left, left, if_neg hs, if_neg hr, accept, List.length_drop]
    omega
  case error e hs hp =>
    have ⟨_, hpos, hle⟩ := recovery_append [] hp
    by_cases hm : d.errorCount + 1 ≥ d.maxErrors
    case pos => simp [fail, left, hm, hs]
    case neg =>
      have hne : d.buffer ≠ [] := by
        intro hn
        simp [hn, parseFrame_nil] at hp
      simp [fail, left, hm, hs, tryRecover, hne, skip]
      omega

theorem drains (d : Decoder) : Drains pull d d.drain.1 d.drain.2 := by
  refine .of_measure left (fun _ _ _ h => left_lt h) ?_
  rw [left]
  split <;> omega

-- Nothing is left in the buffer that the decoder would still give.
def Idle (d : Decoder) : Prop := d.pull = (none, d)

theorem idle_new : new.Idle :=
  rfl

theorem Idle.of_drains (h : Drains pull d os d') : d'.Idle := by
  induction h
  case next hi => exact hi
  case halt d d' h =>
    have ht := h ▸ d.turn
    cases ht
    case stopped => exact h
    case waits hs _ => exact (pull_wait hs).trans h

theorem Idle.ready (h : d.Idle) (hs : d.state ≠ .stopped) : d.state = .ready := by
  have ht : d.Turn (none, d) := h ▸ d.turn
  generalize hr : (none, d) = r at ht
  cases ht <;> simp at hr
  case stopped hs' => exact absurd hs' hs
  case waits =>
    rw [hr]
    rfl

theorem extend_extend {more' : Bytes} :
    (d.extend more).extend more' = d.extend (more ++ more') := by
  simp [extend]

theorem feed_stopped (hs : d.state = .stopped) : d.feed more = (.error d.stoppedError, d) := by
  rw [feed, if_pos hs]

theorem feed_ready (hs : d.state = .ready)
    (h : ∀ size max, (d.feed more).1 ≠ .error (.bufferOverflow size max)) :
    d.feed more = (.ok (), d.extend more) := by
  have hl : ¬d.buffer.length + more.length > d.maxBufferSize := by
    intro hl
    exact h _ _ (by rw [feed, if_neg (by simp [hs]), if_pos hl])
  simp [feed, extend, hs, hl]

theorem Idle.drain_stopped (h : d.Idle) : d.drain = ([], d) :=
  Prod.ext_iff.mpr (d.drains.deterministic (.halt h))

theorem idle_stopped (hs : d.state = .stopped) : d.Idle :=
  (Turn.stopped hs).pull

theorem run_stopped {chunks : List Bytes} (hs : d.state = .stopped) : d.run chunks = ([], d) := by
  induction chunks
  case nil => rfl
  case cons hi => simp [run, feed_stopped hs, (idle_stopped hs).drain_stopped, hi]

-- The outputs of a decoder that is drained after each feed are those it has when it's only drained
-- after the last.
theorem run_drains {chunks : List Bytes} (hd : d.Idle) (h : d.Fits chunks) :
    ∃ d', Drains pull (d.extend chunks.flatten) (d.run chunks).1 d' ∧
      (d'.state ≠ .stopped → d' = (d.run chunks).2) := by
  induction chunks generalizing d
  case nil =>
    have he : d.extend [] = d := by simp [extend]
    refine ⟨d, ?_, fun _ => rfl⟩
    rw [List.flatten_nil, he]
    exact .halt hd
  case cons chunk chunks hi =>
    by_cases hs : d.state = .stopped
    case pos =>
      rw [run_stopped hs]
      exact ⟨_, .halt (idle_stopped hs), fun hn => absurd hs hn⟩
    case neg =>
      have ⟨hf, h⟩ := h
      have hf := feed_ready (hd.ready hs) hf
      rw [hf] at h
      have ⟨d', hr, hd'⟩ := hi (.of_drains (drains _)) h
      refine ⟨d', ?_, ?_⟩
      · have hr := Drains.extend (fun _ _ _ h => pull_extend h) (fun _ _ h => pull_extend_halted h)
          (d.extend chunk).drains hr
        rw [extend_extend] at hr
        rw [run, hf]
        exact hr
      · rw [run, hf]
        exact hd'

theorem run_outputs {chunks : List Bytes} (hd : d.Idle) (h : d.Fits chunks) :
    (d.run chunks).1 = (d.extend chunks.flatten).drain.1 := by
  have ⟨_, hr, _⟩ := run_drains hd h
  exact (hr.deterministic (drains _)).left

-- However a stream is cut, a decoder gives what it gives for the whole of it.
theorem run_chunks (chunks : List Bytes) (hd : d.Idle) (h : d.Fits chunks) :
    (d.run chunks).1 = (d.extend chunks.flatten).drain.1 ∧
    (d.Fits [chunks.flatten] → (d.run chunks).1 = (d.run [chunks.flatten]).1) := by
  refine ⟨run_outputs hd h, fun hw => ?_⟩
  rw [run_outputs hd h, run_outputs hd hw, List.flatten_singleton]

theorem run_chunks_sample :
    (new.run [[0], [0, 0, 1], List.replicate 12 0]).1 =
      (new.run [[0] ++ [0, 0, 1] ++ List.replicate 12 0]).1 :=
  (run_chunks [[0], [0, 0, 1], List.replicate 12 0] idle_new
    ⟨by rintro _ _ ⟨⟩, by rintro _ _ ⟨⟩, by rintro _ _ ⟨⟩, trivial⟩).right
    ⟨by rintro _ _ ⟨⟩, trivial⟩

-- The frames and errors among the outputs, as `decodeAll` keeps them apart.
def frames (os : List (ParseResult Frame)) : List Frame := os.filterMap Except.toOption

def errors (os : List (ParseResult Frame)) : List ParseError :=
  os.filterMap fun
    | .error e => some e
    | .ok _    => none

@[simp]
theorem frames_ok : frames (.ok frame :: os) = frame :: frames os :=
  rfl

@[simp]
theorem frames_error : frames (.error e :: os) = frames os :=
  rfl

@[simp]
theorem errors_ok : errors (.ok frame :: os) = errors os :=
  rfl

@[simp]
theorem errors_error : errors (.error e :: os) = e :: errors os :=
  rfl

theorem decode_of_pull {o : ParseResult Frame} (h : d.pull = (some o, d')) :
    ¬(d.buffer.isEmpty ∨ d.state = .stopped) ∧ d.decode = (o.map some, d') := by
  have ht := h ▸ d.turn
  have hne {r} (hp : parseFrame d.buffer = r) (hr : r ≠ .ok none) : ¬d.buffer.isEmpty := by
    intro he
    rw [List.isEmpty_iff.mp he, parseFrame_nil] at hp
    exact hr hp.symm
  cases ht
  case frame hs hp =>
    have hne := hne hp (by simp)
    exact ⟨by simp [hs, hne], by rw [decode, if_neg hs, if_neg hne, hp]; rfl⟩
  case error hs hp =>
    have hne := hne hp (by simp)
    exact ⟨by simp [hs, hne], by rw [decode, if_neg hs, if_neg hne, hp]; rfl⟩

theorem decode_of_halt (h : d.pull = (none, d')) :
    (d.buffer.isEmpty ∨ d.state = .stopped) ∨ d.decode = (.ok none, d') := by
  have ht := h ▸ d.turn
  cases ht
  case stopped hs => exact .inl (.inr hs)
  case waits hs hp =>
    by_cases he : d.buffer.isEmpty
    case pos => exact .inl (.inl he)
    case neg => exact .inr (by rw [decode, if_neg hs, if_neg he, hp])

theorem decodeAllFrom_eq {fs : List Frame} {es : List ParseError} (h : Drains pull d os d')
    (hn : d.left < n) : (decodeAllFrom n d fs es).1 = (fs ++ frames os, es ++ errors os) := by
  induction h generalizing n fs es
  case halt d d' h =>
    cases n
    case zero => omega
    case succ =>
      rw [decodeAllFrom]
      cases decode_of_halt h
      case inl hc =>
        rw [if_pos hc]
        simp [frames, errors]
      case inr hc => simp only [hc]; split <;> simp [frames, errors]
  case next d o d' os _ h _ hi =>
    cases n
    case zero => omega
    case succ n =>
      have ⟨hc, hdec⟩ := decode_of_pull h
      have hl := left_lt h
      rw [decodeAllFrom, if_neg hc, hdec]
      cases o
      case ok frame =>
        have hi : (decodeAllFrom n d' (fs ++ [frame]) es).1 = _ := hi (by omega)
        simpa [Except.map] using hi
      case error e =>
        have hi : (decodeAllFrom n d' fs (es ++ [e])).1 = _ := hi (by omega)
        simpa [Except.map] using hi

theorem decodeAll_eq : d.decodeAll.1 = (frames d.drain.1, errors d.drain.1) := by
  refine decodeAllFrom_eq d.drains ?_
  rw [left]
  split <;> omega

end Wire.Decoder
