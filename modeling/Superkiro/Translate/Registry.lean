import Superkiro.Lib.Table
import Superkiro.Lib.Text
import Superkiro.Wire.Frame

namespace Translate

def maxToolNameLen : Nat := 64

def isWordChar (c : Char) : Bool := Text.isAsciiAlphanumeric c || c == '_'

-- What providers take in the name of a tool.
def isNameChar (c : Char) : Bool := isWordChar c || c == '-'

def isSafe (name : String) : Bool :=
  Text.len name ≤ maxToolNameLen && name.toList.all isNameChar

def sanitizedPrefix (name : String) : String :=
  .ofList ((name.toList.take 32).map fun c => if isWordChar c then c else '_')

def hexDigit (n : Nat) : Char := .ofNat (if n < 10 then 48 + n else 87 + n)

-- `{:08x}`
def hex8 (n : UInt32) : String :=
  .ofList ((List.range 8).map fun i => hexDigit (n.toNat / 16 ^ (7 - i) % 16))

def shortened (name : String) : String :=
  sanitizedPrefix name ++ "_" ++ hex8 (Wire.crc32 name.utf8)

def safeName (name : String) : String := if isSafe name then name else shortened name

-- The names of a request's tools and those its provider is given.
structure ToolRegistry where
  shortToLong : Table String String := ∅
  longToShort : Table String String := ∅

namespace ToolRegistry

def register (r : ToolRegistry) (fullName : String) : String × ToolRegistry :=
  match r.longToShort.lookup fullName with
  | some existing => (existing, r)
  | none          => (safeName fullName, {
      shortToLong := r.shortToLong.insert (safeName fullName) fullName
      longToShort := r.longToShort.insert fullName (safeName fullName) })

def restore (r : ToolRegistry) (name : String) : String := (r.shortToLong.lookup name).getD name

def registerAll (r : ToolRegistry) (names : List String) : ToolRegistry :=
  names.foldl (fun r name => (r.register name).2) r

end ToolRegistry
end Translate
