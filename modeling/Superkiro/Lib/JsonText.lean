import Superkiro.Lib.Json
import Superkiro.Lib.Text

-- JSON as it is written.
namespace Json

def hexDigit (n : Nat) : Char := .ofNat (if n < 10 then 48 + n else 87 + n)

def escape (c : Char) : List Char :=
  if c = '"' then ['\\', '"']
  else if c = '\\' then ['\\', '\\']
  else if c = '\n' then ['\\', 'n']
  else if c = '\r' then ['\\', 'r']
  else if c = '\t' then ['\\', 't']
  else if c.toNat = 8 then ['\\', 'b']
  else if c.toNat = 12 then ['\\', 'f']
  else if c.toNat < 32 then
    ['\\', 'u', '0', '0', hexDigit (c.toNat / 16), hexDigit (c.toNat % 16)]
  else [c]

def quote (s : String) : String := "\"" ++ .ofList (s.toList.flatMap escape) ++ "\""

mutual

def compact : Json → String
  | null       => "null"
  | bool true  => "true"
  | bool false => "false"
  | num n      => toString n
  | real text  => text
  | str s      => quote s
  | arr xs     => "[" ++ Text.join "," (compactItems xs) ++ "]"
  | obj fields => "\x7b" ++ Text.join "," (compactFields fields) ++ "\x7d"

def compactItems : List Json → List String
  | []      => []
  | x :: xs => x.compact :: compactItems xs

def compactFields : List (String × Json) → List String
  | []              => []
  | (key, v) :: fields => (quote key ++ ":" ++ v.compact) :: compactFields fields

end

def indented (depth : Nat) (opening closing : String) (items : List String) : String :=
  let line depth := "\n" ++ .ofList (List.replicate (2 * depth) ' ')
  if items.isEmpty then opening ++ closing
  else
    opening ++ line (depth + 1) ++ Text.join ("," ++ line (depth + 1)) items ++ line depth ++ closing

mutual

def prettyAt (depth : Nat) : Json → String
  | null       => "null"
  | bool true  => "true"
  | bool false => "false"
  | num n      => toString n
  | real text  => text
  | str s      => quote s
  | arr xs     => indented depth "[" "]" (prettyItems (depth + 1) xs)
  | obj fields => indented depth "\x7b" "\x7d" (prettyFields (depth + 1) fields)

def prettyItems (depth : Nat) : List Json → List String
  | []      => []
  | x :: xs => x.prettyAt depth :: prettyItems depth xs

def prettyFields (depth : Nat) : List (String × Json) → List String
  | []                 => []
  | (key, v) :: fields => (quote key ++ ": " ++ v.prettyAt depth) :: prettyFields depth fields

end

def pretty (j : Json) : String := j.prettyAt 0

example : pretty (obj [("a", arr [num 1, null])]) =
    "\x7b\n  \"a\": [\n    1,\n    null\n  ]\n\x7d" := by decide +kernel

end Json
