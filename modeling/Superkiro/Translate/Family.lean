import Superkiro.Translate.Request

namespace Translate

-- How a model is asked to reason.
inductive Reasoning
  | adaptive (xhigh summarized byDefault : Bool)
  | budget
  | openAi
  | unknown
  deriving DecidableEq

structure ModelFamily where
  sampling  : Bool
  reasoning : Reasoning
  deriving DecidableEq

namespace ModelFamily

-- A level that a model lacks becomes the next one down.
def adaptiveEffort (xhigh : Bool) : ReasoningEffort → String
  | .low    => "low"
  | .medium => "medium"
  | .high   => "high"
  | .xhigh  => if xhigh then "xhigh" else "high"
  | .max    => "max"

end ModelFamily

-- What comes before the first occurrence of a pattern, and what comes after it.
def splitOnceAt (pat : List Char) : List Char → Option (List Char × List Char)
  | []      => if pat = [] then some ([], []) else none
  | c :: cs =>
    if pat.isPrefixOf (c :: cs) then some ([], (c :: cs).drop pat.length)
    else (splitOnceAt pat cs).map fun (before, after) => (c :: before, after)

-- `parse::<u32>`, which takes a plus sign.
def parseU32 (s : List Char) : Option Nat :=
  let digits :=
    match s with
    | '+' :: ds => ds
    | ds        => ds
  let n := digits.foldl (fun n c => 10 * n + (c.toNat - 48)) 0
  if digits ≠ [] && digits.all (fun c => '0' ≤ c && c ≤ '9') && n < 2 ^ 32 then some n else none

-- A model's name in lower case, without its vendor, and with dashes.
def normalized (model : String) : List Char :=
  let name := model.toList.map fun c =>
    let c := Text.lowerAscii c
    if c = '.' || c = '_' then '-' else c
  ((Text.splitAt '/' name).getLast?).getD name

-- The first number in a name that's short, and the one after it.
def version (text : List Char) : Option (Nat × Nat) :=
  let short part := (parseU32 part).filter fun _ => part.length ≤ 2
  let parts := ((Text.splitAt '-' text).filter (· ≠ [])).dropWhile fun part => (parseU32 part).isNone
  match parts with
  | []         => none
  | p :: parts => (short p).map fun major => (major, (parts.head?.bind short).getD 0)

-- A model's line and version. A date is no version.
def claudeVersion (name : List Char) : Option (String × Nat × Nat) := do
  let (word, before, after) ← ["opus", "sonnet", "haiku", "fable", "mythos"].findSome? fun word =>
    (splitOnceAt word.toList name).map (word, ·)
  if word = "fable" || word = "mythos" then return (word, 0, 0)
  let (major, minor) ← (version after) <|> (version before)
  return (word, major, minor)

def adaptive (xhigh byDefault : Bool) : ModelFamily := ⟨false, .adaptive xhigh true byDefault⟩

def claudeFamily (name : List Char) : Option ModelFamily := do
  let (word, major, minor) ← claudeVersion name
  if word = "fable" || word = "mythos" then return adaptive true true
  if 5 ≤ major then return adaptive true true
  if major = 4 && 7 ≤ minor then return adaptive true false
  if major = 4 && minor = 6 then return ⟨true, .adaptive false false false⟩
  return ⟨true, .budget⟩

def stripStart (pat : String) (s : List Char) : Option (List Char) :=
  if pat.toList.isPrefixOf s then some (s.drop pat.toList.length) else none

-- What an upstream model takes, from its name.
def family (model : String) : ModelFamily :=
  let name := normalized model
  match claudeFamily name with
  | some f => f
  | none   =>
    let base := (stripStart "openai-" name).getD name
    let reasons := ["o1", "o3", "o4", "gpt-5", "gpt-6"].any fun p =>
      (stripStart p base).any fun rest => rest = [] || rest.head? = some '-'
    if reasons then ⟨false, .openAi⟩
    else ⟨["gpt-4o", "gpt-4-1", "gpt-4-turbo", "gpt-4", "gpt-3-5"].any
      fun p => (stripStart p base).isSome, .unknown⟩

example : family "anthropic/claude-opus-4.7-20260101" = adaptive true false := by decide +kernel

example : family "claude-3-5-sonnet-20241022" = ⟨true, .budget⟩ := by decide +kernel

end Translate
