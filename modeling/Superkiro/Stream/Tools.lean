import Superkiro.Lib.Table
import Superkiro.Stream.Events
import Superkiro.Translate.Registry

namespace Gateway

-- What isn't the program's own: the reader of JSON, and what the operator sets for providers.
class StreamHost where
  wholeJson      : String → Bool
  replayThinking : String → Bool

-- What is sent to Kiro. A context's usage is a share of its window.
inductive Frame
  | keepalive
  | assistantResponse (text model : String)
  | reasoning (text signature : Option String)
  | toolUse (name id arguments : String) (stop : Bool)
  | metadata (uncached output read write : Nat)
  | contextUsage (tokens window : Nat)
  | metering (charged : I64)
  | stop (reason : String) (refusal : Option (Option String × Option String))
  | exception (name message : String) (reason : Option String) (retryAfterMs : Option Nat)
  deriving DecidableEq

structure ToolBuffer where
  id        : String := ""
  name      : String := ""
  arguments : String := ""
  -- Whether Kiro was told of the call, and of how much of its arguments.
  announced : Bool := false
  sent      : Nat := 0

def ToolBuffer.complete [StreamHost] (b : ToolBuffer) : Bool :=
  let arguments := Text.trim b.arguments
  arguments ≠ "" && StreamHost.wholeJson arguments

-- Tool calls that are assembled, in the order they opened. One of them at a time goes to Kiro as it
-- arrives.
structure ToolCalls where
  calls   : List ToolBuffer := []
  byIndex : Table Nat Nat := ∅
  byId    : Table String Nat := ∅
  live    : Option Nat := none

namespace ToolCalls

variable (t : ToolCalls)

def call (position : Nat) : ToolBuffer := t.calls.getD position {}

def update (position : Nat) (f : ToolBuffer → ToolBuffer) : ToolCalls :=
  { t with calls := t.calls.modify position f }

-- The call a fragment belongs to, unless it opens one.
def find (index : Option Nat) (id : Option String) : Option Nat :=
  match index, id with
  | some index, _    => t.byIndex.lookup index
  | none, some id    => t.byId.lookup id
  | none, none       => if t.calls.isEmpty then none else some (t.calls.length - 1)

def addsNothing (position : Option Nat) (id name : Option String) (arguments : String) : Bool :=
  arguments = "" &&
    match position with
    | some position => id.all (· = (t.call position).id) && name.all (· = (t.call position).name)
    | none          => id.isNone && name.isNone

def opened (index : Option Nat) : ToolCalls :=
  { t with
    calls   := t.calls ++ [{}]
    byIndex := match index with
      | some index => t.byIndex.insert index t.calls.length
      | none       => t.byIndex }

-- The arguments of the call that Kiro has not seen yet.
def rest (live : Nat) : List Frame × ToolCalls :=
  let call := t.call live
  if Text.len call.arguments ≤ call.sent then ([], t)
  else
    let unseen := String.ofList (Utf8.ofBytes (call.arguments.utf8.drop call.sent))
    ([.toolUse call.name call.id unseen false],
      t.update live fun c => { c with sent := Text.len c.arguments })

def ended (live : Nat) : Frame × ToolCalls :=
  (.toolUse (t.call live).name (t.call live).id "" true, { t with live := none })

-- The first call that Kiro can be told of.
def next? : Option Nat :=
  t.calls.findIdx? fun c => !c.announced && c.id ≠ "" && c.name ≠ ""

def announce (next : Nat) : Frame × ToolCalls :=
  let call := t.call next
  (.toolUse call.name call.id call.arguments false,
    { t.update next fun c => { c with announced := true, sent := Text.len c.arguments } with
      live := some next })

-- How many turns a call that streams and those Kiro wasn't told of can take at most.
def waiting : Nat := 2 * t.calls.countP (!·.announced) + if t.live.isSome then 1 else 0

theorem countP_modify {p : α → Bool} {f : α → α} {xs : List α} {x : α} (hx : xs[i]? = some x)
    (hp : p x) (hf : p (f x) = false) : (xs.modify i f).countP p + 1 = xs.countP p := by
  induction xs generalizing i
  case nil => cases hx
  case cons y xs hi =>
    cases i
    case zero =>
      cases hx
      simp [hp, hf]
    case succ i =>
      rw [List.modify_succ_cons, List.countP_cons, List.countP_cons, ← hi hx]
      omega

theorem waiting_announce (h : t.next? = some next) (hl : t.live = none) :
    (t.announce next).2.waiting < t.waiting := by
  have ⟨hlt, hc, _⟩ := List.findIdx?_eq_some_iff_getElem.mp h
  simp only [Bool.and_eq_true] at hc
  have hm := countP_modify (p := fun c : ToolBuffer => !c.announced)
    (f := fun c => { c with announced := true, sent := Text.len c.arguments })
    (List.getElem?_eq_getElem hlt) hc.left.left rfl
  simp only [waiting, announce, update, hl, Option.isSome_none, Option.isSome_some]
  simp only [Bool.false_eq_true, if_true, if_false]
  omega

variable [StreamHost]

-- The frames that bring Kiro up to date after a fragment of a call. There are none when the call has
-- already ended.
def advance (t : ToolCalls) (position : Nat) : Option (List Frame × ToolCalls) :=
  match _h : t.live with
  | some live =>
    if live = position then some (t.rest live)
    else if (t.call position).announced then none
    else if !(t.call live).complete then some ([], t)
    else (advance (t.ended live).2 position).map fun (frames, t') => ((t.ended live).1 :: frames, t')
  | none      =>
    match _hn : t.next? with
    | none      => some ([], t)
    | some next =>
      (advance (t.announce next).2 position).map fun (frames, t') =>
        ((t.announce next).1 :: frames, t')
termination_by t.waiting
decreasing_by
  · simp [waiting, ended, _h]
  · exact waiting_announce t _hn _h

-- The frames that end the calls of a response.
def finish : List Frame :=
  (t.live.map fun live => (t.ended live).1).toList ++
    (t.calls.filter fun c => !c.announced && (c.name ≠ "" || c.id ≠ "")).map fun c =>
      .toolUse c.name c.id c.arguments true

end ToolCalls
end Gateway
