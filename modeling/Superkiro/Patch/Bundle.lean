import Superkiro.Lib.Bytes
import Superkiro.Lib.Rewriting
import Superkiro.Patch.Settings

-- How the endpoints in Kiro's bundle are patched.
namespace Patch.Bundle

open String (utf8Len)

open Search Slices Rewriting

inductive PatchError
  | needleNotFound
  | invalidJavaScript (message : String)
  | invalidUrl (message : String)

-- Why there's no result.
inductive Stop
  | refused (error : PatchError)
  -- A slice that splits a character, or an index that's out of bounds.
  | panicked

structure Url where
  username : String
  password : Option String
  query    : Option String
  fragment : Option String
  hostStr  : Option String
  scheme   : String
  text     : List Char

-- What isn't the program's own: readers of URLs, a writer of JSON strings and a hash, and what
-- it's built for.
class BundleHost where
  parseUrl    : List Char → Option Url
  quoted      : List Char → List Char
  contentHash : Bytes → String
  windows     : Bool

structure PatchRecipe where
  marker      : List Char
  needle      : List Char
  replacement : List Char
  deriving DecidableEq

def PatchRecipe.default : PatchRecipe where
  marker      := "/* @patched-kiro-byok v1 */".toList
  needle      := "https://runtime.$\x7bt\x7d.kiro.dev".toList
  replacement := "http://127.0.0.1:44040/runtime".toList

def isNameByte (b : UInt8) : Bool := Bytes.isAlphanumeric b || b = 95 || b = 36

def endsWith (part text : List Char) : Bool := part.isSuffixOf text

def stripEnd (c : Char) (text : List Char) : Option (List Char) :=
  if text.getLast? = some c then some text.dropLast else none

section Repairs

-- The text without the identifier it ends in.
def identifier (text : List Char) : Option (Option (List Char)) :=
  let name := ((Utf8.encode text).reverse.takeWhile isNameByte).length
  if 0 < name then (sliceTo (utf8Len text - name) text).map some else some none

def identifierOf (text : Option (List Char)) : Option (Option (List Char)) :=
  match text with
  | some text => identifier text
  | none      => some none

def connect : List Char := ".connect(\x7b...".toList

-- Whether a text ends as the options of a tunnel do, whatever the names.
def tunnelOptionsBefore (before : List Char) : Option Bool := do
  let text ← identifierOf (stripEnd ')' before)
  let text ← identifierOf (text.bind (stripEnd '('))
  let text ← identifierOf (text.bind (stripEnd '('))
  return text.any (endsWith connect)

def omitted : List Char := ",\"host\",\"path\",\"port\"),socket:".toList

def proxyAgent : List Char := "M5o(N5o(r),\"host\",\"path\",\"port\")".toList

def repairedProxyAgent : List Char := "M5o(N5o(r),\"path\",\"port\")".toList

def socksAgent : List Char := "qyl($yl(r),\"host\",\"path\",\"port\")".toList

def repairedSocksAgent : List Char := "qyl($yl(r),\"path\",\"port\")".toList

def repairedOptions : List Char := ",\"path\",\"port\"),socket:".toList

def repairProxyTls (content : List Char) : Option (List Char) :=
  let content := replace proxyAgent repairedProxyAgent content
  let content := replace socksAgent repairedSocksAgent content
  replaceWhere tunnelOptionsBefore omitted repairedOptions content

def creditDisplay : List Char :=
  ("return a&&a.currentUsage<a.usageLimit?`$\x7bd\x7d Bonus $\x7ba.currentUsage\x7d / " ++
    "$\x7ba.usageLimit\x7d ($\x7ba.daysRemaining\x7d days left)`:n>0||l>0?`$\x7bd\x7d " ++
    "Overage $\x7bn\x7d ($\x7br.symbol\x7d$\x7bl.toFixed(2)\x7d)`:`" ++
    "$\x7bd\x7d $\x7bs\x7d / $\x7bu\x7d`").toList

def repairedCreditDisplay : List Char :=
  ("const creditDisplay=new Intl.NumberFormat(\"en-US\",\x7bminimumFractionDigits:1," ++
    "maximumFractionDigits:1,useGrouping:false\x7d);return a&&a.currentUsage<a.usageLimit?" ++
    "`$\x7bd\x7d Bonus $\x7bcreditDisplay.format(a.currentUsage)\x7d / " ++
    "$\x7bcreditDisplay.format(a.usageLimit)\x7d ($\x7ba.daysRemaining\x7d days left)`" ++
    ":n>0||l>0?`$\x7bd\x7d Overage $\x7bcreditDisplay.format(n)\x7d " ++
    "($\x7br.symbol\x7d$\x7bl.toFixed(2)\x7d)`:`$\x7bd\x7d $\x7bcreditDisplay.format(s)\x7d / " ++
    "$\x7bcreditDisplay.format(u)\x7d`").toList

def repairCreditDisplay (content : List Char) : List Char :=
  replace creditDisplay repairedCreditDisplay content

def repairs (content : List Char) : Option (List Char) :=
  (repairProxyTls content).map repairCreditDisplay

end Repairs

section Occurrences

-- One place a needle occurs, as a range of bytes.
structure NeedleOccurrence where
  start : Nat
  stop  : Nat
  -- Written exactly as the needle.
  exact : Bool
  deriving DecidableEq

def hole : List Char := ['$', '\x7b', 't', '\x7d']

def opening : List Char := ['$', '\x7b']

-- The occurrence after one of the needle's head, if an identifier and the needle's tail follow.
def occurrenceAt (content head tail : List Char) (found : List Char × List Char) :
    Option (Option NeedleOccurrence) := do
  let start := utf8Len found.1
  let rest ← sliceFrom (start + utf8Len head) content
  let name := ((Utf8.encode rest).takeWhile isNameByte).length
  if name = 0 then return none
  let first ← (Utf8.encode rest)[0]?
  if Bytes.isDigit first then return none
  let after ← sliceFrom name rest
  if ¬tail <+: after then return none
  let written ← sliceTo name rest
  return some ⟨start, start + utf8Len head + name + utf8Len tail, written = ['t']⟩

def needleOccurrences (content needle : List Char) : Option (List NeedleOccurrence) :=
  match splitOnce hole needle with
  | none              => some <| (matchIndices needle content).map fun found =>
    ⟨utf8Len found.1, utf8Len found.1 + utf8Len needle, true⟩
  | some (head, tail) =>
    let head := head ++ opening
    let tail := '\x7d' :: tail
    ((matchIndices head content).mapM (occurrenceAt content head tail)).map List.reduceOption

end Occurrences

section Render

def isQuote (c : Char) : Bool := c = '"' || c = '\'' || c = '`'

-- What an endpoint becomes.
structure Redirect where
  isOwner     : Option (List Char)
  replacement : List Char

structure Rendering where
  body     : List Char
  copied   : Nat
  replaced : Nat

def checked (part : Option α) : Except Stop α := Except.ofOption part .panicked

def missing : Stop := .refused .needleNotFound

-- The quote on both sides of an occurrence.
def wholeQuote (content : List Char) (found : NeedleOccurrence) : Except Stop (Option Char) := do
  let before ← checked (sliceTo found.start content)
  match before.getLast?.filter isQuote with
  | none       => return none
  | some quote =>
    let after ← checked (sliceFrom found.stop content)
    return if after.head? = some quote then some quote else none

-- An endpoint is redirected if it's a whole literal.
def redirectOne (content : List Char) (redirect : Redirect) (rendering : Rendering)
    (found : NeedleOccurrence) : Except Stop Rendering := do
  match ← wholeQuote content found with
  | none       => if found.exact then throw missing else return rendering
  | some quote =>
    let start := found.start - quote.utf8Size
    let stop := found.stop + quote.utf8Size
    Except.ensure (rendering.copied ≤ start) missing
    let kept ← checked (slice rendering.copied start content)
    let text ← match redirect.isOwner with
      | none         => pure redirect.replacement
      | some isOwner => do
        let literal ← checked (slice start stop content)
        pure <| ['('] ++ isOwner ++ ['?'] ++ redirect.replacement ++ [':'] ++ literal ++ [')']
    return ⟨rendering.body ++ kept ++ text, stop, rendering.replaced + 1⟩

-- The bundle with redirected endpoints, not yet repaired.
def redirectEndpoints (content needle : List Char) (redirect : Redirect) :
    Except Stop (List Char) := do
  let found ← checked (needleOccurrences content needle)
  let rendering ← found.foldlM (redirectOne content redirect) ⟨[], 0, 0⟩
  Except.ensure (rendering.replaced ≠ 0) missing
  let rest ← checked (sliceFrom rendering.copied content)
  return rendering.body ++ rest

variable [BundleHost]

def validateGatewayUrl (url : List Char) : Except PatchError (List Char) :=
  match BundleHost.parseUrl url with
  | none        => .error <| .invalidUrl "Malformed URL"
  | some parsed =>
    if parsed.username ≠ "" || parsed.password.isSome || parsed.query.isSome ||
      parsed.fragment.isSome || parsed.hostStr.isNone ||
      !(parsed.scheme = "https" || (parsed.scheme = "http" &&
        (parsed.hostStr = some "localhost" || parsed.hostStr = some "127.0.0.1" ||
          parsed.hostStr = some "[::1]"))) ||
      url.any fun c => Text.isWhitespace c || c = '\\' || c = '"' || c = '\'' || c = '`' then
      .error <| .invalidUrl <|
        "Use HTTPS (HTTP only for loopback), without credentials, query or fragment"
    else .ok (parsed.text.reverse.dropWhile (· = '/')).reverse

def markerStart : List Char := "/* @patched-kiro-byok ".toList

def markerEnd : List Char := [' ', '*', '/']

def checkMarker (marker : List Char) : Except Stop Unit := do
  let invalid : Stop := .refused <| .invalidJavaScript "Invalid marker"
  Except.ensure (markerStart.isPrefixOf marker && endsWith markerEnd marker) invalid
  let inner ← checked (sliceTo (utf8Len marker - 3) marker)
  Except.ensure (¬['*', '/'] <:+: inner) invalid
  Except.ensure (¬marker.any fun c => c = '\n' || c = '\r') invalid

def replacementOf (recipe : PatchRecipe) (gateway : List Char) : Except PatchError (List Char) :=
  if recipe.replacement = PatchRecipe.default.replacement then
    .ok <| "(process.env.KIRO_GATEWAY_URL||".toList ++ BundleHost.quoted gateway ++ [')']
  else
    (validateGatewayUrl (replace ['\x7b', '\x7d'] gateway recipe.replacement)).map
      BundleHost.quoted

-- Whether the bundle runs as the owner.
def ownerTest (owner : List Char) : List Char :=
  "String(process.env.".toList ++ (if BundleHost.windows then "USERPROFILE" else "HOME").toList ++
    "||\"\").toLowerCase()===".toList ++ BundleHost.quoted owner

def renderPatchFor (content gateway : List Char) (recipe : PatchRecipe)
    (owner : Option (List Char)) : Except Stop (List Char) := do
  let gateway ← (validateGatewayUrl gateway).mapError .refused
  checkMarker recipe.marker
  let replacement ← (replacementOf recipe gateway).mapError .refused
  let body ← redirectEndpoints content recipe.needle ⟨owner.map ownerTest, replacement⟩
  let repaired ← checked (repairs body)
  return recipe.marker ++ '\n' :: repaired

structure PatchState where
  originalLen  : Nat
  originalHash : String
  owner        : Option (List Char)

-- What a patched bundle is updated with.
structure Installed where
  state        : Option PatchState
  backup       : Option Bytes
  currentOwner : Option (List Char)
  gateway      : List Char
  recipe       : PatchRecipe

-- The bundle in the backup as it's patched now.
def rendered (installed : Installed) : Except Stop (Option (List Char)) :=
  match installed.state, installed.backup with
  | some state, some backup =>
    if backup.length ≠ state.originalLen ||
      BundleHost.contentHash backup ≠ state.originalHash then .ok none
    else
      match decoded? backup with
      | none          => .ok none
      | some original =>
        let owner := state.owner <|> installed.currentOwner
        match renderPatchFor original installed.gateway installed.recipe owner with
        | .ok fresh           => .ok (some fresh)
        | .error .panicked    => .error .panicked
        | .error (.refused _) => .ok none
  | _, _                    => .ok none

def rerendered (installed : Installed) (content : List Char) :
    Except Stop (Option (List Char)) := do
  let fresh ← rendered installed
  return fresh.filter (· ≠ content)

-- What an already patched bundle is to become.
def updatedPatch (installed : Installed) (content : List Char) : Except Stop (List Char) := do
  match ← rerendered installed content with
  | some fresh => return fresh
  | none       => checked (repairs content)

end Render

end Patch.Bundle
