import Superkiro.Lib.Table
import Superkiro.Billing.Ledger

namespace Billing

-- The card event an upgrade or a renewal writes.
def upgradeEvent : String := "upgrade_card"

def maxCashMicroCny : Int := 100000 * 1000000

def maxCompensatedRequests : Nat := 50

inductive AdjustmentKind
  | compensation
  | gift
  | refund
  | correction
  deriving DecidableEq

namespace AdjustmentKind

def asStr : AdjustmentKind → String
  | compensation => "compensation"
  | gift         => "gift"
  | refund       => "refund"
  | correction   => "correction"

def defaultFor (delta : I64) (namesRequests : Bool) : AdjustmentKind :=
  if delta < 0 then correction else if namesRequests then compensation else gift

-- Why money can't go with the kind as asked, if it can't.
def cashProblem : AdjustmentKind → Option I64 → Option String
  | kind, some cash =>
    if ¬ (0 ≤ cash.val ∧ cash.val ≤ maxCashMicroCny) then
      some "cashMicroCny must be 0-100000000000 micro-CNY"
    else if kind = compensation ∨ kind = gift then
      some "cashMicroCny is refused for a compensation or a gift"
    else
      none
  | refund, none => some "A refund needs cashMicroCny, the money returned to the customer"
  | _, none      => none

end AdjustmentKind

-- The requests an adjustment makes up for, as its detail names them.
def linkedRequests (detail : Option Json) : List String :=
  match detail with
  | none   => []
  | some d =>
    match (d.get? "invocationIds").bind Json.asArr? with
    | some ids => ids.filterMap Json.asStr?
    | none     => ((d.get? "invocationId").bind Json.asStr?).toList

-- The detail a balance adjustment records.
def adjustmentDetail (kind : AdjustmentKind) (cash : Option I64) (ids : List String)
    (charged : List I64) : Json :=
  .obj <| [("kind", .str kind.asStr)] ++
    (match cash with
     | some cash => [("cashMicroCny", .num cash.val)]
     | none      => []) ++
    (if ids.isEmpty then []
     else [("invocationIds", .arr (ids.map .str)),
           ("chargedMicroCredits", .arr (charged.map fun c => .num c.val))]) ++
    (match ids with
     | [only] => [("invocationId", .str only)]
     | _      => [])

-- Shares of an amount in proportion to weights, rounded down along the running total.
def splitFrom (amount total : Int) : Int → Int → List Int → List I64
  | _, _, [] => []
  | running, given, w :: ws =>
    let running := running + w
    let upto := (amount * running).tdiv total
    I64.sat (upto - given) :: splitFrom amount total running upto ws

def split (amount : I64) (weights : List I64) : List I64 :=
  let ws := weights.map fun w => max w.val 0
  let ws := if ws.sum ≤ 0 then ws.map fun _ => 1 else ws
  splitFrom amount.val ws.sum 0 0 ws

section

variable (parse : String → Option Json)

-- Each request an adjustment names, with its share of the adjustment's amount.
def shares (e : LedgerEntry F) : List (String × I64) :=
  let detail := e.eventDetail parse
  let ids := linkedRequests detail
  let charged := (((detail.bind (·.get? "chargedMicroCredits")).bind Json.asArr?).getD []).filterMap
    Json.asI64?
  let weights := if charged.length = ids.length then charged else ids.map fun _ => 1
  ids.zip (split e.creditsCharged weights)

-- A positive balance adjustment naming requests.
def isCompensation (e : LedgerEntry F) : Bool :=
  e.kind = .adjustment && decide (0 < e.creditsCharged) &&
    match e.eventDetail parse with
    | some d => (d.get? "invocationIds").isSome || (d.get? "invocationId").isSome
    | none   => false

end

-- What one positive adjustment gave one request.
structure Compensation where
  microCredits : I64
  atSecs       : Nat
  operator     : Option String
  reason       : Option String
  deriving DecidableEq

-- Every positive adjustment that made up for one request.
structure RequestCompensation where
  totalMicroCredits : I64
  latest            : Compensation
  deriving DecidableEq

-- What positive adjustments gave each request of each card.
abbrev CompensationIndex := Table String (Table String RequestCompensation)

namespace CompensationIndex

variable (parse : String → Option Json)

def addShare (e : LedgerEntry F) (card : Table String RequestCompensation)
    (share : String × I64) : Table String RequestCompensation :=
  let c : Compensation := ⟨share.2, e.tsSecs, e.operatorId, e.reason⟩
  match card.lookup share.1 with
  | some known => card.insert share.1 {
      totalMicroCredits := known.totalMicroCredits.satAdd share.2
      latest            := if e.tsSecs ≥ known.latest.atSecs then c else known.latest
    }
  | none => card.insert share.1 ⟨share.2, c⟩

-- Counts one more adjustment, if it compensates requests.
def add (i : CompensationIndex) (e : LedgerEntry F) : CompensationIndex :=
  if isCompensation parse e then
    i.insert e.cardId ((shares parse e).foldl (addShare e) ((i.lookup e.cardId).getD ∅))
  else
    i

def firstById (es : List (LedgerEntry F)) : List (LedgerEntry F) :=
  es.foldl (fun kept e => if kept.any (·.id = e.id) then kept else kept ++ [e]) []

-- The index of every adjustment kept, each once, the oldest first.
def build (es : List (LedgerEntry F)) : CompensationIndex :=
  let kept := firstById (es.filter (isCompensation parse))
  (kept.insertionSort fun a b => a.tsSecs ≤ b.tsSecs).foldl (add parse) ∅

def get (i : CompensationIndex) (cardId invocationId : String) : Option RequestCompensation :=
  (i.lookup cardId).bind (·.lookup invocationId)

end CompensationIndex

inductive RefusalKind
  | unknown
  | otherCard
  | repeat
  | over
  deriving DecidableEq

structure RefusedRequest where
  invocationId            : String
  cardId                  : Option String := none
  chargedMicroCredits     : Option I64 := none
  chargedAtSecs           : Option Nat := none
  compensatedMicroCredits : Option I64 := none
  compensatedAtSecs       : Option Nat := none
  operator                : Option String := none
  reason                  : Option String := none
  deriving DecidableEq

structure CompensationRefusal where
  message                  : String
  kind                     : RefusalKind
  requests                 : List RefusedRequest
  askedMicroCredits        : Option I64 := none
  chargedTotalMicroCredits : Option I64 := none
  deriving DecidableEq

end Billing
