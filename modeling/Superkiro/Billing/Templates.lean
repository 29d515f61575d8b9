import Superkiro.Billing.Catalog
import Superkiro.Billing.Error

namespace Billing

open Except

structure ResponseTemplateIntent where
  groups  : List (List String)
  exclude : List String := []
  deriving DecidableEq

structure ResponseTemplateContentAlternative where
  filePath : String
  content  : String
  deriving DecidableEq

structure ResponseTemplateMessage where
  atMs          : Nat
  atMaxMs       : Option Nat := none
  text          : String
  alternatives  : List String := []
  selectedIndex : Option Nat := none
  deriving DecidableEq

def ResponseTemplateMessage.latest (m : ResponseTemplateMessage) : Nat := m.atMaxMs.getD m.atMs

structure ResponseTemplateDelivery where
  writeMinMs   : Nat
  writeMaxMs   : Nat
  messages     : List ResponseTemplateMessage
  dispatch     : String
  success      : String
  failure      : String
  unknown      : String
  replay       : String
  continuation : String
  deriving DecidableEq

structure ResponseTemplateVariant where
  modelId                 : String
  filePath                : String
  content                 : String
  contentAlternatives     : List ResponseTemplateContentAlternative := []
  contentAlternativeIndex : Option Nat := none
  preamble                : String
  completion              : String
  priceMicrocredits       : I64
  delayMs                 : Nat := 0
  delivery                : Option ResponseTemplateDelivery := none
  deriving DecidableEq

structure ResponseTemplateRule where
  id        : String
  name      : String
  enabled   : Bool
  matchMode : String
  matchText : String
  variants  : List ResponseTemplateVariant
  intent    : Option ResponseTemplateIntent := none
  deriving DecidableEq

structure ResponseTemplateAudit where
  previousRevision : String
  revision         : String
  reason           : String
  createdAtSecs    : Nat
  deriving DecidableEq

structure ResponseTemplateConfig where
  revision : String := "response-template:v1:empty"
  rules    : List ResponseTemplateRule := []
  audit    : List ResponseTemplateAudit := []
  deriving DecidableEq

structure ResponseTemplateUpdate where
  expectedRevision : String
  reason           : String
  rules            : List ResponseTemplateRule

structure ResponseTemplateReceipt where
  toolUseId         : String
  invocationId      : String
  cardId            : String
  conversationId    : String
  modelId           : String
  filePath          : String
  completion        : String
  toolName          : String := ""
  pathKey           : String := ""
  contentKey        : String := ""
  content           : String := ""
  priceMicrocredits : I64 := 0
  delivery          : Option ResponseTemplateDelivery := none
  messageSelections : List Nat := []
  createdAtSecs     : Nat
  deriving DecidableEq

-- What template validation takes from the standard library and the encoder: which characters are
-- letters or digits, and the encoded lengths of rules and receipts.
class TemplateHost where
  isAlphanumeric : Char → Bool
  rulesBytes     : List ResponseTemplateRule → Nat
  receiptBytes   : ResponseTemplateReceipt → Nat

open TemplateHost

namespace Template

def receiptTtl : Nat := 86400

def maxReceipts : Nat := 4096

def maxReceiptsPerCard : Nat := 256

def maxReceiptBytes : Nat := 16 * 1024 * 1024

def maxReceiptBytesPerCard : Nat := 2 * 1024 * 1024

def maxContentAlternatives : Nat := 31

def maxMessageAlternatives : Nat := 15

def maxAudit : Nat := 128

def invalid (message : String) : BillingError := .invalidState ("response template: " ++ message)

def isForbiddenInPath (c : Char) : Bool :=
  Text.isControl c || ['\\', ':', '<', '>', '"', '|', '?', '*'].contains c

-- Uppercase as far as device names go: their only letter with a source outside ASCII is the
-- dotless i.
def upper (c : Char) : Char :=
  if 'a' ≤ c && c ≤ 'z' then .ofNat (c.toNat - 32) else if c.toNat = 0x131 then 'I' else c

def deviceNames : List (List Char) :=
  ["CON", "PRN", "AUX", "NUL", "CONIN$", "CONOUT$"].map String.toList

def deviceSuffixes : List (List Char) :=
  ["1", "2", "3", "4", "5", "6", "7", "8", "9", "¹", "²", "³"].map String.toList

def safePathPart (part : List Char) : Bool :=
  if part.isEmpty || part == ['.'] || part == ['.', '.'] ||
      Text.trimEnd (Text.trimStart part) != part || Text.endsWith part ['.'] then
    false
  else
    let stem := (Text.trimEnd (part.takeWhile (· != '.'))).map upper
    !deviceNames.contains stem && ["COM".toList, "LPT".toList].all fun pre =>
      match stem.dropPrefix? pre with
      | some suffix => !deviceSuffixes.contains suffix
      | none        => true

-- Portable relative HTML paths.
def safeHtmlPath (path : String) : Bool :=
  if path.isEmpty || Text.len path > 240 || path.toList.any isForbiddenInPath then false
  else
    let lower := path.toList.map Text.lowerAscii
    if !(Text.endsWith lower ".html".toList || Text.endsWith lower ".htm".toList) then false
    else (Text.splitAt '/' path.toList).all safePathPart

def message (s : String) : Bool :=
  Text.len s ≤ 4096 && !s.toList.any fun c =>
    Text.isControl c && c != '\n' && c != '\r' && c != '\t'

def validMessage (writeMin : Nat) (m : ResponseTemplateMessage) : Bool :=
  m.atMs ≤ m.latest && m.latest ≤ writeMin && !Text.isBlank m.text && message m.text &&
  m.alternatives.length ≤ maxMessageAlternatives &&
  m.selectedIndex.all (· ≤ m.alternatives.length) &&
  m.alternatives.all fun text => !Text.isBlank text && message text

def inOrder : List ResponseTemplateMessage → Bool
  | m :: n :: ms => m.latest < n.atMs && inOrder (n :: ms)
  | _            => true

def validateDelivery (d : ResponseTemplateDelivery) : Result Unit :=
  ensure
    (d.writeMinMs ≤ d.writeMaxMs && d.writeMaxMs ≤ 300000 && d.messages.length ≤ 16 &&
      d.messages.all (validMessage d.writeMinMs) && inOrder d.messages &&
      [d.dispatch, d.success, d.failure, d.unknown, d.replay, d.continuation].all message)
    (invalid "invalid delivery: 0–300000ms, ordered non-overlapping absolute message windows before earliest dispatch, up to 16 slots and 16 candidates per slot")

def validateDelivery? : Option ResponseTemplateDelivery → Result Unit
  | some d => validateDelivery d
  | none   => pure ()

variable [TemplateHost]

def validTerm (s : String) : Bool :=
  2 ≤ (Text.trim s).length && (Text.trim s).length ≤ 128 && message s &&
  s.toList.any isAlphanumeric

def validIntent (i : ResponseTemplateIntent) : Bool :=
  2 ≤ i.groups.length && i.groups.length ≤ 12 &&
  i.groups.all (fun g => !g.isEmpty && g.length ≤ 32 && g.all validTerm) &&
  i.exclude.length ≤ 64 && i.exclude.all validTerm

def validateIntent : Option ResponseTemplateIntent → Result Unit
  | some i => ensure (validIntent i)
      (invalid "intent requires 2–12 groups, 1–32 synonyms per group and at most 64 exclusions (2–128 characters)")
  | none   => pure ()

def validVariant (v : ResponseTemplateVariant) : Bool :=
  validModelId v.modelId && safeHtmlPath v.filePath &&
  (v.contentAlternatives.isEmpty || !Text.isBlank v.content) &&
  Text.len v.content ≤ 256 * 1024 &&
  v.contentAlternatives.length ≤ maxContentAlternatives &&
  v.contentAlternativeIndex.all (· ≤ v.contentAlternatives.length) &&
  v.contentAlternatives.all (fun a =>
    safeHtmlPath a.filePath && !Text.isBlank a.content && Text.len a.content ≤ 256 * 1024) &&
  v.delayMs ≤ 30000 && message v.preamble && message v.completion &&
  0 ≤ v.priceMicrocredits && v.priceMicrocredits ≤ 1000000000

def contentBytes (v : ResponseTemplateVariant) : Nat :=
  Text.len v.content + (v.contentAlternatives.map fun a => Text.len a.content).sum

-- Goes through the variants of a rule with the models met so far and the bytes counted so far.
def validateVariants (models : List String) (total : Nat) :
    List ResponseTemplateVariant → Result Nat
  | []      => .ok total
  | v :: vs => do
    ensure (validVariant v && !models.contains v.modelId)
      (invalid "invalid or duplicate model variant, HTML path, content, message, or price")
    validateDelivery? v.delivery
    ensure (total + contentBytes v ≤ 2 * 1024 * 1024) (invalid "HTML content exceeds 2 MiB")
    validateVariants (v.modelId :: models) (total + contentBytes v) vs

def validRule (r : ResponseTemplateRule) : Bool :=
  Text.validId r.id 128 && Text.validId r.name 256 &&
  ["exact", "contains", "intent"].contains r.matchMode &&
  !Text.isBlank r.matchText && message r.matchText && !r.variants.isEmpty &&
  r.variants.length ≤ 32

def validateRules (ids : List String) (total : Nat) : List ResponseTemplateRule → Result Unit
  | []      => .ok ()
  | r :: rs => do
    ensure (validRule r && !ids.contains r.id)
      (invalid "invalid or duplicate rule, matcher, or variant count")
    ensure (r.matchMode != "intent" || r.intent.isSome)
      (invalid "intent mode requires concept groups")
    validateIntent r.intent
    let total ← validateVariants [] total r.variants
    validateRules (r.id :: ids) total rs

def validateResponseTemplateRules (rules : List ResponseTemplateRule) : Result Unit := do
  ensure (rules.length ≤ 32) (invalid "at most 32 rules are allowed")
  validateRules [] 0 rules
  ensure (rulesBytes rules ≤ 2 * 1024 * 1024) (invalid "serialized rules exceed 2 MiB")

def variantContainsContent (v : ResponseTemplateVariant) (filePath content : String) : Bool :=
  (v.filePath = filePath && v.content = content) ||
  v.contentAlternatives.any fun a => a.filePath = filePath && a.content = content

-- Whether a variant has nothing to write.
def isEmptyVariant (v : ResponseTemplateVariant) : Bool :=
  Text.isBlank v.content && v.contentAlternatives.all fun a => Text.isBlank a.content

def findVariant (rules : List ResponseTemplateRule) (ruleId modelId : String) :
    Option ResponseTemplateVariant :=
  (rules.find? fun r => r.id = ruleId && r.enabled).bind fun r =>
    r.variants.find? (·.modelId = modelId)

def toolShapes : List (String × String × String) := [
  ("fsWrite", "path", "text"),
  ("fs_write", "path", "text"),
  ("Write", "file_path", "content"),
  ("write_file", "path", "content"),
  ("writeFile", "path", "content")
]

def validateSelections (r : ResponseTemplateReceipt) : Result Unit :=
  if r.messageSelections.isEmpty then pure ()
  else do
    let d ← ofOption r.delivery (invalid "message selections require delivery")
    ensure
      (r.messageSelections.length = d.messages.length &&
        (r.messageSelections.zip d.messages).all fun (i, m) =>
          i ≤ m.alternatives.length && m.selectedIndex.all (· = i))
      (invalid "invalid receipt message selections")

def validReceipt (r : ResponseTemplateReceipt) : Bool :=
  [r.toolUseId, r.invocationId, r.cardId, r.conversationId].all (Text.validId · 256) &&
  validModelId r.modelId && safeHtmlPath r.filePath && message r.completion &&
  Text.validId r.toolName 128 && Text.validId r.pathKey 32 && Text.validId r.contentKey 32 &&
  Text.len r.content ≤ 256 * 1024 && 0 ≤ r.priceMicrocredits &&
  toolShapes.contains (r.toolName, r.pathKey, r.contentKey)

def validateReceipt (r : ResponseTemplateReceipt) : Result Unit := do
  validateSelections r
  validateDelivery? r.delivery
  ensure (validReceipt r) (invalid "invalid receipt")

-- Whether a receipt is within its time to live. One from the future isn't.
def live (r : ResponseTemplateReceipt) (now : Nat) : Bool :=
  r.createdAtSecs ≤ now && now - r.createdAtSecs < receiptTtl

-- Whether a receipt is kept when a new one is admitted.
def retained (now : Nat) (r : ResponseTemplateReceipt) : Bool := live r now || r.createdAtSecs > now

def cardReceipts (rs : List ResponseTemplateReceipt) (cardId : String) :
    List ResponseTemplateReceipt :=
  rs.filter (·.cardId = cardId)

-- Goes through the receipts with those that came before.
def withinBudget (before : List ResponseTemplateReceipt) : List ResponseTemplateReceipt → Bool
  | []      => true
  | r :: rs =>
    let before := before ++ [r]
    let ofCard := cardReceipts before r.cardId
    2 + (before.map receiptBytes).sum ≤ maxReceiptBytes &&
    ofCard.length ≤ maxReceiptsPerCard &&
    (ofCard.map receiptBytes).sum ≤ maxReceiptBytesPerCard &&
    withinBudget before rs

def receiptCapacityExhausted : BillingError :=
  invalid "receipt capacity exhausted; retry after receipts expire"

def validateReceiptBudget (rs : List ResponseTemplateReceipt) : Result Unit :=
  ensure (withinBudget [] rs) receiptCapacityExhausted

end Template
end Billing
