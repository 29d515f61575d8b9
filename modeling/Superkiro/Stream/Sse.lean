import Superkiro.Lib.Text
import Superkiro.Lib.Utf8Prefix
import Superkiro.Stream.Events

namespace Gateway

abbrev Item := Except ProviderError ProviderStreamEvent

-- What comes from the network.
inductive Chunk
  | bytes (bs : List UInt8)
  | timeout
  | network (text : String)

def maxSseLineBytes : Nat := maxToolArgumentBytes

def maxSseBufferBytes : Nat := 2 * maxSseLineBytes

-- How many garbled events a stream may carry.
def tolerated : Nat := 2

-- The pump's buffers: bytes that aren't text yet, and text that isn't a line yet.
structure Pump where
  byteBuffer  : List UInt8 := []
  buffer      : List Char := []
  emittedDone : Bool := false
  garbled     : Nat := 0

-- The lines of a text, and what comes after the last of them.
def splitLines : List Char → List (List Char) × List Char
  | []      => ([], [])
  | c :: cs =>
    let (lines, rest) := splitLines cs
    if c = '\n' then ([] :: lines, rest)
    else
      match lines with
      | []      => ([], c :: rest)
      | l :: ls => ((c :: l) :: ls, rest)

def invalidUtf8 : ProviderError := .parse "upstream stream contained invalid UTF-8"

def incompleteUtf8 : ProviderError := .parse "upstream stream ended with incomplete UTF-8 data"

def bufferExceeded : ProviderError := .parse "upstream SSE line buffer exceeded limit"

def lineExceeded : ProviderError := .parse "upstream SSE line exceeded limit"

namespace Pump

-- Whether a line that can't be parsed is passed over.
def passesOver (p : Pump) (line : String) : Bool × Pump :=
  match Text.stripPrefix line "data:" with
  | none         => (false, p)
  | some payload =>
    let payload := Text.trim payload
    if !Text.startsWith payload "\x7b" && !Text.startsWith payload "[" then (true, p)
    else (p.garbled + 1 ≤ tolerated, { p with garbled := p.garbled + 1 })

variable (parseLine : String → Except ProviderError (List ProviderStreamEvent))

-- What a line is parsed as. A comment has no events.
def parsed (p : Pump) (line : String) : Except ProviderError (List ProviderStreamEvent) × Pump :=
  if Text.startsWith line ":" then (.ok [], p)
  else
    match parseLine line with
    | .error (.parse text) =>
      match p.passesOver line with
      | (true, p)  => (.ok [], p)
      | (false, p) => (.error (.parse text), p)
    | other                => (other, p)

def emit (p : Pump) (events : List ProviderStreamEvent) : List Item × Pump :=
  (events.map .ok, { p with emittedDone := p.emittedDone || events.contains .done })

-- What is sent for what a line is parsed as. There is no pump once the stream has failed.
def respond (line : String) : Except ProviderError (List ProviderStreamEvent) × Pump →
    List Item × Option Pump
  | (.ok events, p) =>
    if events.isEmpty && !Text.startsWith line "event:" then ([.ok .heartbeat], some p)
    else ((p.emit events).1, some (p.emit events).2)
  | (.error e, _)   => ([.error e], none)

def readLine (p : Pump) (line : List Char) : List Item × Option Pump :=
  if maxSseLineBytes < (Utf8.encode line).length then ([.error lineExceeded], none)
  else
    let line := Text.trim (.ofList line)
    if line = "" then ([], some p) else respond line (p.parsed parseLine line)

def readLines (p : Pump) : List (List Char) → List Item × Option Pump
  | []          => ([], some p)
  | line :: lines =>
    match p.readLine parseLine line with
    | (items, none)   => (items, none)
    | (items, some p) => (items ++ (p.readLines lines).1, (p.readLines lines).2)

-- What is sent for more bytes.
def feed (p : Pump) (bytes : List UInt8) : List Item × Option Pump :=
  let (text, rest) := Utf8.fromUtf8 (p.byteBuffer ++ bytes)
  if rest ≠ [] && !Utf8.unfinished rest then ([.error invalidUtf8], none)
  else
    let buffer := p.buffer ++ text
    if maxSseBufferBytes < (Utf8.encode buffer).length then ([.error bufferExceeded], none)
    else
      let (lines, buffer) := splitLines buffer
      { p with byteBuffer := rest, buffer := buffer }.readLines parseLine lines

-- What is sent once the stream has ended.
def finish (p : Pump) : List Item :=
  if p.byteBuffer ≠ [] then [.error incompleteUtf8]
  else
    let remaining := Text.trim (.ofList p.buffer)
    if maxSseLineBytes < Text.len remaining then [.error lineExceeded]
    else
      match if remaining = "" then (.ok [], p) else p.parsed parseLine remaining with
      | (.error e, _)   => [.error e]
      | (.ok events, p) =>
        let (items, p) := p.emit events
        items ++ if p.emittedDone then [] else [.error .streamDisconnected]

-- What is received of a stream.
def run (p : Pump) : List Chunk → List Item
  | []                    => p.finish parseLine
  | .timeout :: _         => [.error .timeout]
  | .network text :: _    => [.error (.network text)]
  | .bytes bytes :: chunks =>
    match p.feed parseLine bytes with
    | (items, none)   => items
    | (items, some p) => items ++ p.run chunks

end Pump

def processByteStream (parseLine : String → Except ProviderError (List ProviderStreamEvent))
    (chunks : List Chunk) : List Item :=
  Pump.run parseLine {} chunks

end Gateway
