import Superkiro.Lib.Drain
import Superkiro.Wire.Frame

namespace Wire

inductive DecoderState
  | ready | parsing | recovering | stopped
  deriving DecidableEq

structure Decoder where
  buffer        : Bytes        := []
  state         : DecoderState := .ready
  framesDecoded : Nat          := 0
  errorCount    : Nat          := 0
  maxErrors     : Nat          := 5
  maxBufferSize : Nat          := 16 * 1024 * 1024
  bytesSkipped  : Nat          := 0
  deriving DecidableEq

namespace Decoder

def new : Decoder := {}

def stoppedError (d : Decoder) : ParseError :=
  .tooManyErrors d.errorCount "Decoder stopped due to excessive errors"

def reset (d : Decoder) : Decoder := { d with buffer := [], state := .ready, errorCount := 0 }

def feed (d : Decoder) (data : Bytes) : ParseResult Unit × Decoder :=
  let newSize := d.buffer.length + data.length
  if d.state = .stopped then (.error d.stoppedError, d)
  else if newSize > d.maxBufferSize then (.error (.bufferOverflow newSize d.maxBufferSize), d)
  else
    let state := if d.state = .recovering then .ready else d.state
    (.ok (), { d with buffer := d.buffer ++ data, state })

def skip (d : Decoder) (n : Nat) : Decoder :=
  { d with buffer := d.buffer.drop n, bytesSkipped := d.bytesSkipped + n }

-- How much is skipped for an error: the message it's in, or else a byte.
def recovery (buffer : Bytes) (error : ParseError) : Nat :=
  let total := totalLength buffer
  if error.inMessage ∧ preludeSize ≤ buffer.length ∧ 16 ≤ total ∧ total ≤ buffer.length then total
  else 1

def tryRecover (d : Decoder) (error : ParseError) : Decoder :=
  if d.buffer.isEmpty then d else d.skip (recovery d.buffer error)

def accept (d : Decoder) (consumed : Nat) : Decoder where
  __            := d
  buffer        := d.buffer.drop consumed
  state         := .ready
  framesDecoded := d.framesDecoded + 1
  errorCount    := 0

def wait (d : Decoder) : Decoder := { d with state := .ready }

def fail (d : Decoder) (e : ParseError) : ParseError × Decoder :=
  let d := { d with state := .parsing, errorCount := d.errorCount + 1 }
  if d.errorCount ≥ d.maxErrors then
    (.tooManyErrors d.errorCount e.toString, { d with state := .stopped })
  else (e, { d.tryRecover e with state := .recovering })

def decode (d : Decoder) : ParseResult (Option Frame) × Decoder :=
  if d.state = .stopped then (.error d.stoppedError, d)
  else if d.buffer.isEmpty then (.ok none, d.wait)
  else
    match parseFrame d.buffer with
    | .ok (some (frame, consumed)) => (.ok (some frame), d.accept consumed)
    | .ok none                     => (.ok none, d.wait)
    | .error e                     => (.error (d.fail e).1, (d.fail e).2)

-- One turn of a caller that decodes until there is no frame or the decoder has stopped.
def pull (d : Decoder) : Option (ParseResult Frame) × Decoder :=
  if d.state = .stopped then (none, d)
  else
    match d.decode with
    | (.ok (some frame), d') => (some (.ok frame), d')
    | (.ok none, d')         => (none, d')
    | (.error e, d')         => (some (.error e), d')

-- Every turn takes a byte from the buffer or stops the decoder.
def drain (d : Decoder) : List (ParseResult Frame) × Decoder :=
  outputs pull (d.buffer.length + 2) d

def decodeAllFrom : Nat → Decoder → List Frame → List ParseError →
    (List Frame × List ParseError) × Decoder
  | 0, d, frames, errors => ((frames, errors), d)
  | n + 1, d, frames, errors =>
    if d.buffer.isEmpty ∨ d.state = .stopped then ((frames, errors), d)
    else
      match d.decode with
      | (.ok (some frame), d') => decodeAllFrom n d' (frames ++ [frame]) errors
      | (.ok none, d')         => ((frames, errors), d')
      | (.error e, d')         => decodeAllFrom n d' frames (errors ++ [e])

def decodeAll (d : Decoder) : (List Frame × List ParseError) × Decoder :=
  decodeAllFrom (d.buffer.length + 2) d [] []

-- Feeds a decoder chunk by chunk and drains it after each.
def run (d : Decoder) : List Bytes → List (ParseResult Frame) × Decoder
  | []              => ([], d)
  | chunk :: chunks =>
    let (before, d) := (d.feed chunk).2.drain
    let (after, d) := d.run chunks
    (before ++ after, d)

-- No feed meets the limit of the buffer.
def Fits (d : Decoder) : List Bytes → Prop
  | []              => True
  | chunk :: chunks =>
    (∀ size max, (d.feed chunk).1 ≠ .error (.bufferOverflow size max)) ∧
    (d.feed chunk).2.drain.2.Fits chunks

end Decoder

end Wire
