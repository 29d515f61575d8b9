import Superkiro.Wire.Header

namespace Wire

def polynomial : UInt32 := 0xedb88320

def crcStep (c : UInt32) : UInt32 := if c &&& 1 ≠ 0 then polynomial ^^^ c >>> 1 else c >>> 1

-- The entries of the lookup table.
def crcTable (i : UInt32) : UInt32 := crcStep^[8] i

def crcUpdate (crc : UInt32) (b : UInt8) : UInt32 :=
  (crc >>> 8) ^^^ crcTable ((crc ^^^ b.toUInt32) &&& 0xff)

def crc32 (data : Bytes) : UInt32 := data.foldl crcUpdate 0xffffffff ^^^ 0xffffffff

example : crc32 "123456789".utf8 = 0xcbf43926 := by decide +kernel

def preludeSize : Nat := 12

def minMessageSize : Nat := preludeSize + 4

def maxMessageSize : Nat := 16 * 1024 * 1024

structure Frame where
  headers : Headers
  payload : Bytes
  deriving DecidableEq

def totalLength (buffer : Bytes) : Nat := (be32 buffer).toNat

def headerLength (buffer : Bytes) : Nat := (be32 (buffer.drop 4)).toNat

-- How many bytes the message at the start of a buffer takes, once the buffer holds all of them.
def parsePrelude (buffer : Bytes) : ParseResult (Option Nat) :=
  let total := totalLength buffer
  let preludeCrc := be32 (buffer.drop 8)
  let actualPreludeCrc := crc32 (buffer.take 8)
  if buffer.length < preludeSize then .ok none
  else if total < minMessageSize then .error (.messageTooSmall total minMessageSize)
  else if total > maxMessageSize then .error (.messageTooLarge total maxMessageSize)
  else if actualPreludeCrc ≠ preludeCrc then
    .error (.preludeCrcMismatch preludeCrc actualPreludeCrc)
  else if buffer.length < total then .ok none
  else .ok (some total)

-- The frame in the bytes of one message.
def parseMessage (message : Bytes) : ParseResult Frame :=
  let body := message.take (message.length - 4)
  let messageCrc := be32 (message.drop (message.length - 4))
  let actualMessageCrc := crc32 body
  let headersEnd := preludeSize + headerLength message
  if actualMessageCrc ≠ messageCrc then .error (.messageCrcMismatch messageCrc actualMessageCrc)
  else if headersEnd > body.length then
    .error (.headerParseFailed "Headers length exceeds frame boundary")
  else do
    let headers ← parseHeaders ((body.take headersEnd).drop preludeSize) (headerLength message)
    .ok ⟨headers, body.drop headersEnd⟩

-- The frame at the start of a buffer and how many bytes it takes, if the buffer holds all of it.
def parseFrame (buffer : Bytes) : ParseResult (Option (Frame × Nat)) := do
  match ← parsePrelude buffer with
  | none       => .ok none
  | some total => do
    let frame ← parseMessage (buffer.take total)
    .ok (some (frame, total))

def withCrc (msg : Bytes) : Bytes := msg ++ BigEndian.encode 4 (crc32 msg).toNat

-- Headers and payload between the prelude and the checksum.
def wrap (headersBytes payload : Bytes) : Bytes :=
  let totalLen := 12 + headersBytes.length + payload.length + 4
  let prelude := withCrc (BigEndian.encode 4 totalLen ++ BigEndian.encode 4 headersBytes.length)
  withCrc (prelude ++ headersBytes ++ payload)

def encodeFrame (frame : Frame) : Bytes := wrap (encodeHeaders frame.headers) frame.payload

variable {buffer more : Bytes} {frame : Frame} {error : ParseError}

theorem be32_append (h : k + 4 ≤ buffer.length) :
    be32 ((buffer ++ more).drop k) = be32 (buffer.drop k) := by
  have hl : 4 ≤ (buffer.drop k).length := by
    rw [List.length_drop]
    omega
  rw [be32, be32, List.drop_append_of_le_length (by omega), List.take_append_of_le_length hl]

-- A prelude that is as it should be.
structure Delimits (buffer : Bytes) (n : Nat) : Prop where
  total   : totalLength buffer = n
  min     : minMessageSize ≤ n
  max     : n ≤ maxMessageSize
  crc     : crc32 (buffer.take 8) = be32 (buffer.drop 8)

theorem Delimits.append (h : Delimits buffer n) (hl : preludeSize ≤ buffer.length) :
    Delimits (buffer ++ more) n := by
  have hl : 12 ≤ buffer.length := hl
  have ht : totalLength (buffer ++ more) = totalLength buffer :=
    congrArg UInt32.toNat (be32_append (k := 0) (by omega))
  have hc : (buffer ++ more).take 8 = buffer.take 8 := List.take_append_of_le_length (by omega)
  have hp : be32 ((buffer ++ more).drop 8) = be32 (buffer.drop 8) := be32_append (by omega)
  exact ⟨ht.trans h.total, h.min, h.max, by rw [hc, hp, h.crc]⟩

theorem parsePrelude_of_delimits (h : Delimits buffer n) (hl : preludeSize ≤ buffer.length) :
    parsePrelude buffer = .ok (if buffer.length < n then none else some n) := by
  have hmin := h.min
  have hmax := h.max
  simp only [parsePrelude, h.total]
  rw [if_neg (by omega), if_neg (by omega), if_neg (by omega), if_neg (by simp [h.crc])]
  split <;> rfl

-- A prelude is there in full and delimits a message, or else there is too little of it or it's
-- refused for what is in it.
inductive Prelude (buffer : Bytes) : Prop
  | short (hl : buffer.length < preludeSize) (h : parsePrelude buffer = .ok none)
  | delimits (hl : preludeSize ≤ buffer.length) (h : Delimits buffer n)
  | refused {error : ParseError} (hs : error.inMessage = false) (h : parsePrelude buffer = .error error)
    (hm : ∀ more, parsePrelude (buffer ++ more) = .error error)

theorem prelude (buffer : Bytes) : Prelude buffer := by
  by_cases hl : buffer.length < preludeSize
  case pos => exact .short hl (by simp [parsePrelude, hl])
  case neg =>
    have hp : 12 ≤ buffer.length := Nat.not_lt.mp hl
    by_cases hd : Delimits buffer (totalLength buffer)
    case pos => exact .delimits hp hd
    case neg =>
      have ht more : totalLength (buffer ++ more) = totalLength buffer :=
        congrArg UInt32.toNat (be32_append (k := 0) (by omega))
      have hc more : (buffer ++ more).take 8 = buffer.take 8 :=
        List.take_append_of_le_length (by omega)
      have hb more : be32 ((buffer ++ more).drop 8) = be32 (buffer.drop 8) :=
        be32_append (by omega)
      have hlm more : ¬(buffer ++ more).length < preludeSize := by
        rw [List.length_append]
        omega
      have he : ∃ error, parsePrelude buffer = .error error ∧
          (∀ more, parsePrelude (buffer ++ more) = .error error) ∧ error.inMessage = false := by
        simp only [parsePrelude, ht, hc, hb, hlm, hl, if_false]
        by_cases hmin : totalLength buffer < minMessageSize
        case pos => simp [hmin, ParseError.inMessage]
        case neg =>
          by_cases hmax : totalLength buffer > maxMessageSize
          case pos => simp [hmin, hmax, ParseError.inMessage]
          case neg =>
            have hcrc : crc32 (buffer.take 8) ≠ be32 (buffer.drop 8) := fun hcrc =>
              hd ⟨rfl, Nat.not_lt.mp hmin, Nat.not_lt.mp hmax, hcrc⟩
            simp [hmin, hmax, hcrc, ParseError.inMessage]
      have ⟨_, h, hm, hs⟩ := he
      exact .refused hs h hm

theorem parsePrelude_eq_some :
    parsePrelude buffer = .ok (some n) ↔ Delimits buffer n ∧ n ≤ buffer.length := by
  constructor
  · intro h
    cases prelude buffer
    case short hs => simp [hs] at h
    case refused _ he _ => simp [he] at h
    case delimits hl hd =>
      rw [parsePrelude_of_delimits hd hl] at h
      split at h <;> simp at h
      subst h
      exact ⟨hd, by omega⟩
  · intro ⟨hd, hn⟩
    have hmin : 16 ≤ n := hd.min
    have hp : preludeSize = 12 := rfl
    rw [parsePrelude_of_delimits hd (by omega), if_neg (by omega)]

-- A buffer that waits for the rest of a message holds less than the longest one.
theorem parsePrelude_eq_none (h : parsePrelude buffer = .ok none) :
    buffer.length < maxMessageSize := by
  have hp : preludeSize < maxMessageSize := by decide
  cases prelude buffer
  case short hl _ => omega
  case refused _ he _ => simp [he] at h
  case delimits hl hd =>
    have hmax := hd.max
    rw [parsePrelude_of_delimits hd hl] at h
    split at h <;> simp at h
    omega

theorem parseFrame_eq_some {frame : Frame} (h : parseFrame data = .ok (some (frame, n))) :
    Delimits data n ∧ n ≤ data.length ∧ parseMessage (data.take n) = .ok frame := by
  simp only [parseFrame, Except.bind_eq_ok'] at h
  have ⟨r, hr, h⟩ := h
  cases r
  case none => simp at h
  case some total =>
    simp only [Except.bind_eq_ok', Except.ok.injEq, Option.some.injEq, Prod.mk.injEq] at h
    have ⟨frame', hm, hf, hn⟩ := h
    subst hf hn
    have ⟨hd, hl⟩ := parsePrelude_eq_some.mp hr
    exact ⟨hd, hl, hm⟩

theorem parseFrame_eq_none (h : parseFrame buffer = .ok none) : parsePrelude buffer = .ok none := by
  simp only [parseFrame, Except.bind_eq_ok'] at h
  have ⟨r, hr, h⟩ := h
  cases r
  case none => exact hr
  case some => simp [Except.bind_eq_ok'] at h

-- An error in a message is one in a message that the buffer holds.
theorem parseFrame_eq_error (h : parseFrame buffer = .error error) :
    (parsePrelude buffer = .error error ∧ error.inMessage = false) ∨
    ∃ n, Delimits buffer n ∧ n ≤ buffer.length ∧ parseMessage (buffer.take n) = .error error := by
  rw [parseFrame] at h
  cases hr : parsePrelude buffer
  case error e =>
    rw [hr] at h
    cases h
    cases prelude buffer
    case short hs => simp [hs] at hr
    case refused hs he _ =>
      rw [he] at hr
      cases hr
      exact .inl ⟨rfl, hs⟩
    case delimits hl hd => simp [parsePrelude_of_delimits hd hl] at hr
  case ok r =>
    rw [hr] at h
    cases r
    case none => cases h
    case some n =>
      have ⟨hd, hn⟩ := parsePrelude_eq_some.mp hr
      refine .inr ⟨n, hd, hn, ?_⟩
      cases hm : parseMessage (buffer.take n)
      case error =>
        simp only [hm, bind, Except.bind] at h
        cases h
        rfl
      case ok => simp [hm, bind, Except.bind] at h

-- What follows a buffer has no part in a decision.
theorem parsePrelude_append (h : parsePrelude buffer ≠ .ok none) :
    parsePrelude (buffer ++ more) = parsePrelude buffer := by
  cases prelude buffer
  case short hs => exact absurd hs h
  case refused _ he hm => rw [he, hm]
  case delimits n hl hd =>
    have hlm : preludeSize ≤ (buffer ++ more).length := by
      rw [List.length_append]
      omega
    rw [parsePrelude_of_delimits hd hl] at h ⊢
    have hn : ¬buffer.length < n := by
      intro hn
      simp [hn] at h
    rw [parsePrelude_of_delimits (hd.append hl) hlm, if_neg hn, if_neg]
    rw [List.length_append]
    omega

theorem parseFrame_append (h : parseFrame buffer ≠ .ok none) :
    parseFrame (buffer ++ more) = parseFrame buffer := by
  have hp : parsePrelude buffer ≠ .ok none := by
    intro hp
    simp [parseFrame, hp, bind, Except.bind] at h
  rw [parseFrame, parseFrame, parsePrelude_append hp]
  cases hr : parsePrelude buffer
  case error => rfl
  case ok r =>
    cases r
    case none => exact absurd hr hp
    case some n =>
      have hn : n ≤ buffer.length := (parsePrelude_eq_some.mp hr).right
      simp only [bind, Except.bind, List.take_append_of_le_length hn]

end Wire
