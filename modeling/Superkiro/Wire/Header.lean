import Superkiro.Lib.BigEndian
import Superkiro.Lib.Fallible
import Superkiro.Lib.Utf8

namespace Wire

abbrev Bytes := List UInt8

inductive ParseError
  | incomplete (needed available : Nat)
  | preludeCrcMismatch (expected actual : UInt32)
  | messageCrcMismatch (expected actual : UInt32)
  | invalidHeaderType (type : UInt8)
  | headerParseFailed (problem : String)
  | messageTooLarge (length max : Nat)
  | messageTooSmall (length min : Nat)
  | bufferOverflow (size max : Nat)
  | tooManyErrors (count : Nat) (lastError : String)
  deriving DecidableEq

-- `0x{:08x}`
def hex (n : UInt32) : String := "0x" ++ .ofList ((Nat.toDigits 16 n.toNat).leftpad 8 '0')

def ParseError.toString : ParseError → String
  | incomplete needed available =>
    s!"Incomplete frame: needed {needed} bytes, available {available} bytes"
  | preludeCrcMismatch expected actual =>
    s!"Prelude CRC mismatch: expected {hex expected}, actual {hex actual}"
  | messageCrcMismatch expected actual =>
    s!"Message CRC mismatch: expected {hex expected}, actual {hex actual}"
  | invalidHeaderType type         => s!"Invalid header value type: {type.toNat}"
  | headerParseFailed problem      => s!"Header parse failed: {problem}"
  | messageTooLarge length max     => s!"Message too large: length {length} exceeds maximum {max}"
  | messageTooSmall length min     => s!"Message too small: length {length} below minimum {min}"
  | bufferOverflow size max        => s!"Buffer overflow: size {size} exceeds maximum {max}"
  | tooManyErrors count lastError  => s!"Too many consecutive errors ({count}): {lastError}"

-- Errors in a message whose length is known.
def ParseError.inMessage : ParseError → Bool
  | messageCrcMismatch .. | headerParseFailed _ => true
  | _                                           => false

abbrev ParseResult := Except ParseError

inductive HeaderValueType
  | boolTrue | boolFalse | byte | short | integer | long | byteArray | string | timestamp | uuid
  deriving DecidableEq

def HeaderValueType.tryFrom : UInt8 → ParseResult HeaderValueType
  | 0 => .ok boolTrue
  | 1 => .ok boolFalse
  | 2 => .ok byte
  | 3 => .ok short
  | 4 => .ok integer
  | 5 => .ok long
  | 6 => .ok byteArray
  | 7 => .ok string
  | 8 => .ok timestamp
  | 9 => .ok uuid
  | t => .error (.invalidHeaderType t)

inductive HeaderValue
  | bool (v : Bool)
  | byte (v : Int8)
  | short (v : Int16)
  | integer (v : Int32)
  | long (v : Int64)
  | byteArray (bytes : Bytes)
  | string (s : String)
  | timestamp (v : Int64)
  | uuid (bytes : Vector UInt8 16)
  deriving DecidableEq

-- Two collections are equal when they have the same value under each name.
abbrev Headers := Finmap fun _ : String => HeaderValue

def need (n : Nat) (data : Bytes) : ParseResult Unit :=
  Except.ensure (n ≤ data.length) (.incomplete n data.length)

def be16 (data : Bytes) : UInt16 := .ofNat (BigEndian.decode (data.take 2))

def be32 (data : Bytes) : UInt32 := .ofNat (BigEndian.decode (data.take 4))

def be64 (data : Bytes) : UInt64 := .ofNat (BigEndian.decode (data.take 8))

-- The bytes after their length.
def parseSized (data : Bytes) : ParseResult Bytes := do
  need 2 data
  let len := (be16 data).toNat
  need (2 + len) data
  .ok ((data.drop 2).take len)

-- The value, and how many bytes it takes.
def parseHeaderValue (data : Bytes) : HeaderValueType → ParseResult (HeaderValue × Nat)
  | .boolTrue  => .ok (.bool true, 0)
  | .boolFalse => .ok (.bool false, 0)
  | .byte      => do need 1 data; .ok (.byte (data.headD 0).toInt8, 1)
  | .short     => do need 2 data; .ok (.short (be16 data).toInt16, 2)
  | .integer   => do need 4 data; .ok (.integer (be32 data).toInt32, 4)
  | .long      => do need 8 data; .ok (.long (be64 data).toInt64, 8)
  | .byteArray => do let bytes ← parseSized data; .ok (.byteArray bytes, 2 + bytes.length)
  | .string    => do
    let bytes ← parseSized data
    .ok (.string (.fromUtf8Lossy bytes), 2 + bytes.length)
  | .timestamp => do need 8 data; .ok (.timestamp (be64 data).toInt64, 8)
  | .uuid      => do need 16 data; .ok (.uuid (.ofFn fun i => data.getD i 0), 16)

-- One header and the bytes after it.
def parseHeader (nameLen : UInt8) (data : Bytes) :
    ParseResult ((String × HeaderValue) × Bytes) := do
  let nameLen := nameLen.toNat
  Except.ensure (nameLen ≠ 0) (.headerParseFailed "Header name length cannot be 0")
  need nameLen data
  let name := String.fromUtf8Lossy (data.take nameLen)
  match data.drop nameLen with
  | []        => .error (.incomplete 1 0)
  | t :: data => do
    let type ← HeaderValueType.tryFrom t
    let (value, len) ← parseHeaderValue data type
    .ok ((name, value), data.drop len)

-- The headers, in at most so many steps.
def parseHeadersFrom : Nat → Bytes → Headers → ParseResult Headers
  | 0, _, headers                    => .ok headers
  | _, [], headers                   => .ok headers
  | steps + 1, nameLen :: data, headers => do
    let ((name, value), data) ← parseHeader nameLen data
    parseHeadersFrom steps data (headers.insert name value)

-- Every header takes at least a byte.
def parseHeaders (data : Bytes) (headerLength : Nat) : ParseResult Headers := do
  need headerLength data
  let data := data.take headerLength
  parseHeadersFrom data.length data ∅

-- Lengths of names and values are cut to what their length fields hold.
def maxNameLen : Nat := 255

def maxValueLen : Nat := 65535

def encodeSized (bytes : Bytes) : Bytes :=
  let bytes := bytes.take maxValueLen
  BigEndian.encode 2 bytes.length ++ bytes

def encodeHeaderValue : HeaderValue → Bytes
  | .bool true       => [0]
  | .bool false      => [1]
  | .byte v          => [2, v.toUInt8]
  | .short v         => 3 :: BigEndian.encode 2 v.toUInt16.toNat
  | .integer v       => 4 :: BigEndian.encode 4 v.toUInt32.toNat
  | .long v          => 5 :: BigEndian.encode 8 v.toUInt64.toNat
  | .byteArray bytes => 6 :: encodeSized bytes
  | .string s        => 7 :: encodeSized s.utf8
  | .timestamp v     => 8 :: BigEndian.encode 8 v.toUInt64.toNat
  | .uuid bytes      => 9 :: bytes.toList

def encodeHeader (name : String) (value : HeaderValue) : Bytes :=
  let name := name.utf8.take maxNameLen
  .ofNat name.length :: name ++ encodeHeaderValue value

def rank : String → Nat
  | ":event-type" | ":exception-type" => 0
  | ":content-type"                   => 1
  | ":message-type"                   => 2
  | _                                 => 3

-- The order in which headers are written.
def Before (a b : String) : Prop := toLex (rank a, a) ≤ toLex (rank b, b)

instance : DecidableRel Before := fun a b =>
  inferInstanceAs (Decidable (toLex (rank a, a) ≤ toLex (rank b, b)))

instance : IsTrans String Before := ⟨fun _ _ _ h₁ h₂ => le_trans h₁ h₂⟩

instance : Std.Total Before := ⟨fun _ _ => le_total _ _⟩

instance : Std.Antisymm Before where
  antisymm _ _ h₁ h₂ := (Prod.mk.inj (toLex.injective (le_antisymm h₁ h₂))).right

def encodeHeaders (headers : Headers) : Bytes :=
  (headers.keys.sort Before).flatMap fun name =>
    match headers.lookup name with
    | some value => encodeHeader name value
    | none       => []

end Wire
