import Superkiro.Lib.Search
import Superkiro.Billing.Templates

namespace Billing

open TemplateHost

-- What matching takes from the standard library: how letters are lowered, one at a time and in a
-- text. Of characters outside ASCII no more is assumed than that those in words aren't whitespace.
class MatcherHost extends TemplateHost where
  toLowercase         : Char → List Char
  textToLowercase     : List Char → List Char
  alphanumeric_ascii  : ∀ c : Char, c.toNat < 128 → isAlphanumeric c = Text.isAsciiAlphanumeric c
  alphanumeric_space  : ∀ c, isAlphanumeric c → Text.isWhitespace c = false
  toLowercase_ascii   : ∀ c : Char, c.toNat < 128 → toLowercase c = [Text.lowerAscii c]
  toLowercase_lowered : ∀ c, ∀ d ∈ toLowercase c, d.toNat < 128 → Text.lowerAscii d = d

open MatcherHost

structure TemplateMatchPreview where
  matched       : Bool
  reason        : String
  missingGroups : List Nat := []
  deriving DecidableEq

namespace Template

-- A full-width form as the character it's a form of.
def halfWidth (c : Char) : Char :=
  if 0xff01 ≤ c.toNat && c.toNat ≤ 0xff5e then .ofNat (c.toNat - 0xfee0) else c

-- `split_whitespace`
def words (s : List Char) : List (List Char) := (s.splitOnP Text.isWhitespace).filter (· ≠ [])

def trimmed (s : List Char) : List Char := Text.trimEnd (Text.trimStart s)

-- `str::lines`
def lines (s : List Char) : List (List Char) :=
  let parts := s.splitOn '\n'
  let ended := parts.dropLast.map fun line => (line.dropSuffix? ['\r']).getD line
  match parts.getLast? with
  | some []   => ended
  | some last => ended ++ [last]
  | none      => ended

def isAscii (c : Char) : Bool := c.toNat < 128

def isDigit (c : Char) : Bool := '0' ≤ c && c ≤ '9'

section Words

variable [MatcherHost]

def folded (s : List Char) : List Char :=
  ((s.map halfWidth).flatMap toLowercase).map fun c => if isAlphanumeric c then c else ' '

def normalized (s : List Char) : List Char := [' '].intercalate (words (folded s))

-- Neither side goes on with an ASCII letter or digit.
def bounded (before after : List Char) : Bool :=
  !before.getLast?.any Text.isAsciiAlphanumeric && !after.head?.any Text.isAsciiAlphanumeric

def withoutSpaces (s : List Char) : List Char := s.filter (· ≠ ' ')

def contains (text : List Char) (term : String) : Bool :=
  let term := normalized term.toList
  if term = [] then false
  else if term.all isAscii then
    (Search.matchIndices term text).any fun (before, after) => bounded before after
  else decide (withoutSpaces term <:+: withoutSpaces text)

end Words

section UserText

def sessionTag : List Char := "<session_context>".toList

def sessionEnd : List Char := "</session_context>".toList

def contextTag : List Char := "<EnvironmentContext>".toList

def contextEnd : List Char := "</EnvironmentContext>".toList

def sessionNotice : List Char :=
  ("Only the last <session_context> block is current; it remains current until a later block " ++
    "supersedes it.").toList

def modelFamilies : List (List Char) :=
  ["Claude Opus ", "Claude Sonnet ", "Claude Haiku ", "GPT-"].map String.toList

def validVersion (version : List Char) : Bool :=
  version ≠ [] && Text.len (.ofList version) ≤ 32 && version.head?.any isDigit &&
    version.all fun c => isDigit c || c = '.' || c = '-'

def knownModel (model : List Char) : Bool :=
  (modelFamilies.filterMap fun family => model.dropPrefix? family).any validVersion

-- Whether a session's context is the notice and a model line, and no more.
def knownContext (context : List Char) : Bool :=
  let lines := (lines (trimmed context)).map trimmed
  let model := (lines[1]?.bind fun line => line.dropPrefix? "The current model is ".toList).bind
    fun line => line.dropSuffix? ['.']
  lines[0]? = some sessionNotice && model.any knownModel && lines[2]?.isNone

def withoutSession (prompt : List Char) : List Char :=
  let p := trimmed prompt
  match (p.dropPrefix? sessionTag).bind (Search.splitOnce sessionEnd) with
  | some (context, rest) => if knownContext context then trimmed rest else p
  | none                 => p

def withoutEnvironment (p : List Char) : List Char :=
  match Search.splitOnce contextTag p with
  | some (before, after) =>
    if Text.endsWith (contextTag ++ after) contextEnd &&
        (Search.matchIndices contextTag (contextTag ++ after)).length = 1 then
      trimmed before
    else p
  | none => p

-- Remove recognized editor metadata only at the edges, never arbitrary user instructions.
def userText (prompt : String) : List Char := withoutEnvironment (withoutSession prompt.toList)

end UserText

def has (p : List Char) (s : String) : Bool := decide (s.toList <:+: p)

def unsafePhrases : List String :=
  ["```", "\n>", "“", "”", "\"", "「", "」", "<", ">", "为什么", "解释", "分析", "这句话", "这段话",
    "举例", "假如", "如果", "修改", "改成", "替换", "只给代码", "只给我代码", "只返回代码", "仅返回代码",
    "不要生成", "不要创建", "不需要", "取消", "并非", "不是", "而不是", "而非", "不要鹈鹕", "别画", "不画",
    "不做", "静态", "3d", "三维", "立体", "explain", "example", "instead", "modify", "replace", "not a",
    "don't", "do not create", "do not draw", "do not generate", "no pelican", "without a pelican"]

def clauseEnds : List Char := ['，', '。', '；', ',', '.', ';', '\n']

def negations : List String :=
  ["不要", "不得", "不能", "别", "不使用", "不用", "禁止", "without", "no ", "do not", "not "]

def requirements : List String :=
  ["鹈鹕", "鵜鶘", "自行车", "单车", "脚踏车", "pelican", "bicycle", "bike", "svg", "html", "动画",
    "animation", "文件", "写入", "落盘", "保存", "file", "write", "save"]

variable [MatcherHost]

-- A request to explain, change or quote something, or one that negates what it would require.
def unsafeIntent (p : List Char) : Bool :=
  let lower := textToLowercase p
  if unsafePhrases.any (has lower) then true
  else (lower.splitOnP (clauseEnds.contains ·)).any fun clause =>
    negations.any (has clause) && requirements.any (has clause)

end Template

open Template

variable [MatcherHost]

def previewTemplateMatch (rule : ResponseTemplateRule) (prompt model : String) :
    TemplateMatchPreview :=
  if !rule.enabled then { matched := false, reason := "rule_disabled" }
  else if !rule.variants.any (·.modelId = model) then
    { matched := false, reason := "model_not_configured" }
  else if 65536 < Text.len prompt then { matched := false, reason := "prompt_too_long" }
  else
    let p := userText prompt
    if p = [] then { matched := false, reason := "empty_prompt" }
    else if rule.matchMode = "exact" then
      { matched := p = (Text.trim rule.matchText).toList, reason := "exact" }
    else if rule.matchMode = "contains" then
      { matched := has p (Text.trim rule.matchText), reason := "contains" }
    else
      match rule.intent.filter fun _ => rule.matchMode = "intent" with
      | none        => { matched := false, reason := "invalid_matcher" }
      | some intent =>
        if unsafeIntent p then
          { matched := false, reason := "ambiguous_negated_quoted_or_edit_request" }
        else
          let text := normalized p
          if intent.exclude.any (contains text) then
            { matched := false, reason := "excluded_phrase" }
          else
            let missing := (intent.groups.zipIdx.filter fun (g, _) => !g.any (contains text)).map
              fun (_, i) => i + 1
            { matched       := missing = []
              reason        := if missing = [] then "intent_groups_matched" else "missing_concepts"
              missingGroups := missing }

end Billing
