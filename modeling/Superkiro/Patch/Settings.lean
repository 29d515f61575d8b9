import Mathlib.Data.Finmap
import Superkiro.Lib.Fallible
import Superkiro.Lib.JsonEq
import Superkiro.Lib.Text
import Superkiro.Lib.Utf8Prefix

namespace Patch

abbrev Bytes := List UInt8

-- The top-level values of a settings file.
abbrev Values := Finmap fun _ : String => Json

-- A change of some of the values. A key without a value is removed.
abbrev Edits := List (String × Option Json)

def edit (m : Values) (es : Edits) : Values :=
  es.foldl (fun m e => match e.2 with
    | some v => m.insert e.1 v
    | none   => m.erase e.1) m

inductive SettingsError
  | io (message : String)
  | json
  | syntaxError (line column : Nat)
  | profile (name : String) (error : SettingsError)

def invalidData (message : String) : SettingsError := .io message

-- How far a read of a settings file goes past what strict JSON allows.
inductive Reading
  -- What a takeover accepts.
  | kiro
  -- Also a missing comma, which Kiro reads past.
  | tolerant
  deriving DecidableEq

structure Position where
  line   : Nat
  column : Nat

def Position.error (p : Position) : SettingsError := .syntaxError p.line p.column

-- What isn't the program's own: readers of JSON and of URLs, and an editor that keeps the text of a
-- file as it is apart from what it is asked to change.
class SettingsHost where
  fromStr : String → Option Json
  host    : String → Option String
  Doc     : Type
  value   : Reading → String → Except Position (Option Json)
  -- A document whose root is no object can't be edited.
  parse   : Reading → String → Except Position (Option Doc)
  set     : Doc → String → Json → Doc
  remove  : Doc → String → Doc
  text    : Doc → String

def bom : Char := '\uFEFF'

inductive Lexing
  | plain
  | string
  | line
  | block

def stripComments : Lexing → List Char → List Char
  | _, []                     => []
  | .plain, '/' :: '/' :: cs  => stripComments .line cs
  | .plain, '/' :: '*' :: cs  => stripComments .block cs
  | .plain, '"' :: cs         => '"' :: stripComments .string cs
  | .plain, c :: cs           => c :: stripComments .plain cs
  | .string, '\\' :: c :: cs  => '\\' :: c :: stripComments .string cs
  | .string, '"' :: cs        => '"' :: stripComments .plain cs
  | .string, c :: cs          => c :: stripComments .string cs
  | .line, '\n' :: cs         => '\n' :: stripComments .plain cs
  | .line, _ :: cs            => stripComments .line cs
  | .block, '*' :: '/' :: cs  => stripComments .plain cs
  | .block, _ :: cs           => stripComments .block cs

-- Whether a comma in front of the text would be a trailing one.
def closes (cs : List Char) : Bool :=
  match cs.find? (!Text.isWhitespace ·) with
  | some c => c = '}' || c = ']'
  | none   => false

def stripCommas (inString : Bool) : List Char → List Char
  | []              => []
  | '\\' :: c :: cs =>
    if inString then '\\' :: c :: stripCommas true cs else '\\' :: stripCommas false (c :: cs)
  | '"' :: cs       => '"' :: stripCommas (!inString) cs
  | ',' :: cs       =>
    if !inString && closes cs then stripCommas false cs else ',' :: stripCommas inString cs
  | c :: cs         => c :: stripCommas inString cs

def stripJsonc (input : List Char) : List Char := stripCommas false (stripComments .plain input)

example : stripJsonc "[\"/\\\"/,\", 1, /* , */ ] // end".toList = "[\"/\\\"/,\", 1  ] ".toList := by
  decide

def decoded? (raw : Bytes) : Option (List Char) :=
  match Utf8.fromUtf8 raw with
  | (cs, []) => some cs
  | _        => none

def stripBom : List Char → Bool × List Char
  | []      => (false, [])
  | c :: cs => if c = bom then (true, cs) else (false, c :: cs)

def isEmpty (cs : List Char) : Bool := cs.all Text.isWhitespace

def Values.ofFields (fields : List (String × Json)) : Values :=
  edit ∅ (fields.map fun (k, v) => (k, some v))

def notAnObject : SettingsError := invalidData "settings.json must contain an object"

variable [SettingsHost]

def parseSettingsBytes (raw : Bytes) : Except SettingsError Values := do
  let content ← Except.ofOption (decoded? raw) .json
  let content := (stripBom content).2
  if isEmpty content then return ∅
  match SettingsHost.fromStr (.ofList (stripJsonc content)) with
  | some (.obj fields) => return .ofFields fields
  | some _             => throw notAnObject
  | none               =>
    -- The editor's reader knows where the file stops being readable.
    match SettingsHost.value .kiro (.ofList content) with
    | .error e => throw e.error
    | .ok _    => throw .json

def parseTolerant (raw : Bytes) : Except SettingsError Values := do
  let content ← Except.ofOption (decoded? raw) (invalidData "settings.json is not UTF-8")
  let content := (stripBom content).2
  match SettingsHost.value .tolerant (.ofList content) with
  | .error e                => throw e.error
  | .ok none                => return ∅
  | .ok (some (.obj fields)) => return .ofFields fields
  | .ok (some _)            => throw notAnObject

def read : Reading → Bytes → Except SettingsError Values
  | .kiro     => parseSettingsBytes
  | .tolerant => parseTolerant

-- A settings file edited in place.
structure SettingsText where
  bom     : Bool
  reading : Reading
  doc     : SettingsHost.Doc

namespace SettingsText

def parse (raw : Bytes) (reading : Reading) : Except SettingsError SettingsText := do
  let _ ← (if reading = .kiro then parseSettingsBytes raw else .ok ∅ : Except _ Values)
  let text ← Except.ofOption (decoded? raw) (invalidData "settings.json is not UTF-8")
  let (bom, body) := stripBom text
  let body := if isEmpty body then "\x7b\x7d" else .ofList body
  match SettingsHost.parse reading body with
  | .error e        => throw e.error
  | .ok none        => throw notAnObject
  | .ok (some doc)  => return ⟨bom, reading, doc⟩

def edit (t : SettingsText) (es : Edits) : SettingsText :=
  { t with
    doc := es.foldl (fun d e => match e.2 with
      | some v => SettingsHost.set d e.1 v
      | none   => SettingsHost.remove d e.1) t.doc }

def toBytes (t : SettingsText) : Bytes :=
  Utf8.encode ((if t.bom then [Patch.bom] else []) ++ (SettingsHost.text t.doc).toList)

end SettingsText

-- The file, opened for a rollback.
def readForRollback (raw : Bytes) : Except SettingsError (SettingsText × Values) :=
  match SettingsText.parse raw .kiro, parseSettingsBytes raw with
  | .ok text, .ok map => .ok (text, map)
  | _, _              => do
    let text ← SettingsText.parse raw .tolerant
    let map ← parseTolerant raw
    return (text, map)

-- The edited file, but only if it reads back as expected.
def verifiedBytes (text : SettingsText) (expected : Values) : Except SettingsError Bytes := do
  let bytes := text.toBytes
  let actual ← read text.reading bytes
  if actual = expected then return bytes
  else throw <|
    invalidData "settings.json could not be edited in place without changing other settings"

def redirectedRegion : String := "us-east-1"

def cloudConfigEndpoint : String := "kiroAgent.cloudConfig.endpoint"

def remoteSessionsEndpoint : String := "kiroAgent.remoteSessions.endpoint"

-- The keys that point Kiro's own traffic at an endpoint.
def redirectionKeys : List String :=
  ["kiroAuthConfig", "codewhisperer.config", cloudConfigEndpoint, remoteSessionsEndpoint]

def noProxy : String := "http.noProxy"

def managedKeys : List String :=
  redirectionKeys ++
    ["kiroAgent.enableTabAutocomplete", "update.mode", "telemetry.telemetryLevel", noProxy]

-- Preferences a takeover sets, with the values it sets them to.
def ourPreferences : List (String × Json) := [
  ("kiroAgent.enableTabAutocomplete", .bool false),
  ("update.mode", .str "none"),
  ("telemetry.telemetryLevel", .str "off")]

def redirection (gw : String) : List (String × Json) :=
  let endpoints := .arr [.obj [("endpoint", .str gw), ("region", .str redirectedRegion)]]
  [("kiroAuthConfig", .obj [("endpoint", .str gw), ("portalUrl", .str gw)]),
   ("codewhisperer.config",
     .obj [("cpsEndpoints", endpoints), ("endpoints", endpoints), ("krsEndpoints", endpoints)]),
   (cloudConfigEndpoint, .str gw),
   (remoteSessionsEndpoint, .str gw)]

def trimSlashes (url : String) : String :=
  .ofList (url.toList.reverse.dropWhile (· = '/')).reverse

def gatewayHost (url : String) : Option String := SettingsHost.host url

-- What was there before a takeover.
structure PriorSettingsState where
  hadSettingsFile    : Bool
  proxyBypassManaged : Bool
  priorValues        : Values
  priorRaw           : Option Bytes

namespace SettingsManager

-- A file that doesn't exist has no values.
def readSettings (file : Option Bytes) : Except SettingsError Values :=
  match file with
  | some raw => parseSettingsBytes raw
  | none     => .ok ∅

def capturePriorState (file : Option Bytes) : Except SettingsError PriorSettingsState := do
  let map ← readSettings file
  return {
    hadSettingsFile    := file.isSome
    proxyBypassManaged := true
    priorValues        := edit ∅ <| managedKeys.filterMap fun key =>
      (map.lookup key).map fun v => (key, some v)
    priorRaw           := file }

-- The gateway's host joins the hosts that bypass a proxy.
def bypass (map : Values) (host : String) : Except SettingsError Json :=
  match map.lookup noProxy with
  | some (.arr hosts) => .ok <| .arr <| if .str host ∈ hosts then hosts else hosts ++ [.str host]
  | none              => .ok <| .arr [.str host]
  | some _            => .error <| invalidData "http.noProxy must be an array"

def takeoverEdits (map : Values) (gatewayUrl : String) (first : Bool) :
    Except SettingsError Edits := do
  let gw := trimSlashes gatewayUrl
  let preferences := ourPreferences.filter fun (key, _) => first || key = "update.mode"
  let hosts ← match gatewayHost gw with
    | some host => (bypass map host).map fun list => [(noProxy, list)]
    | none      => pure []
  return (redirection gw ++ preferences ++ hosts).map fun (key, v) => (key, some v)

-- The file a takeover writes. A file that has several names can't be edited.
def planTakeoverEdit (file : Option Bytes) (names : Nat) (gatewayUrl : String) (first : Bool) :
    Except SettingsError Bytes := do
  Except.ensure (!(file.isSome && 1 < names)) <| invalidData <|
    "settings.json has more than one hard link, which a takeover would separate; " ++
      "remove the extra links and try again"
  let raw := file.getD []
  let text ← SettingsText.parse raw .kiro
  let map ← parseSettingsBytes raw
  let edits ← takeoverEdits map gatewayUrl first
  verifiedBytes (text.edit edits) (edit map edits)

def planMerge (file : Option Bytes) (names : Nat) (gatewayUrl : String) :
    Except SettingsError Bytes :=
  planTakeoverEdit file names gatewayUrl true

def planReassert (file : Option Bytes) (names : Nat) (gatewayUrl : String) :
    Except SettingsError Bytes :=
  planTakeoverEdit file names gatewayUrl false

-- A file that already says all this is left alone.
def writeIfChanged (file : Option Bytes) (bytes : Bytes) : Option Bytes :=
  if file.getD [] = bytes then file else some bytes

def mergeByok (file : Option Bytes) (names : Nat) (gatewayUrl : String) :
    Except SettingsError (PriorSettingsState × Option Bytes) := do
  let prior ← capturePriorState file
  let bytes ← planMerge file names gatewayUrl
  return (prior, writeIfChanged file bytes)

def reassertByok (file : Option Bytes) (names : Nat) (gatewayUrl : String) :
    Except SettingsError (Option Bytes) :=
  (planReassert file names gatewayUrl).map (writeIfChanged file)

inductive Rollback
  | write (bytes : Bytes)
  -- The file did not exist before and nothing else is in it now.
  | delete

-- Whether it was a takeover that added a host.
def addedByUs (prior : Option Json) (host : String) : Bool :=
  match prior with
  | some (.arr before) => Json.str host ∉ before
  | _                  => true

-- What the proxy bypass becomes. Only the gateway's host is removed, and only if a takeover added it.
def revertedBypass (prior current : Option Json) (host : Option String) : Option Json :=
  match current, host with
  | some (.arr hosts), some host =>
    let hosts := if addedByUs prior host then hosts.filter (· ≠ Json.str host) else hosts
    if hosts ≠ [] || prior.isSome then some (.arr hosts) else none
  -- Nothing to reason from.
  | _, _                         => prior

-- What each managed key becomes on a rollback.
def revertedValues (prior : PriorSettingsState) (current : Values) (host : Option String) : Edits :=
  redirectionKeys.map (fun key => (key, prior.priorValues.lookup key)) ++
    ourPreferences.map (fun (key, ours) =>
      (key, if current.lookup key = some ours then prior.priorValues.lookup key
        else current.lookup key)) ++
    if prior.proxyBypassManaged then
      [(noProxy, revertedBypass (prior.priorValues.lookup noProxy) (current.lookup noProxy) host)]
    else []

-- The rollback to an edited text, which is to hold `map`.
def rollbackTo (prior : PriorSettingsState) (text : SettingsText) (map : Values) :
    Except SettingsError Rollback :=
  -- The original bytes would also repair a typo made since.
  let original := prior.priorRaw.filter fun original => prior.hadSettingsFile &&
    text.reading = .kiro && (parseSettingsBytes original).toOption = some map
  if !prior.hadSettingsFile && map = ∅ then .ok .delete
  else
    match original with
    | some original => .ok <| .write original
    | none          => (verifiedBytes text map).map .write

def planRevert (file : Option Bytes) (prior : PriorSettingsState) (gatewayUrl : String) :
    Except SettingsError Rollback := do
  let (text, map) ← readForRollback (file.getD [])
  let edits := revertedValues prior map (gatewayHost (trimSlashes gatewayUrl))
  rollbackTo prior (text.edit edits) (edit map edits)

def Rollback.file : Rollback → Option Bytes
  | .write bytes => some bytes
  | .delete      => none

def revert (file : Option Bytes) (prior : PriorSettingsState) (gatewayUrl : String) :
    Except SettingsError (Option Bytes) :=
  (planRevert file prior gatewayUrl).map Rollback.file

end SettingsManager
end Patch
