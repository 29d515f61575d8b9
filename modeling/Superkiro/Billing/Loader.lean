import Superkiro.Billing.Snapshot
import Superkiro.Lib.Fallible
import Superkiro.Lib.JsonEq

-- What the engine loads from the files of its data directory.
namespace Billing

open Except

def snapshotVersion : Nat := 2

structure SnapshotAnchor where
  version        : Nat
  sequence       : Nat
  checksum       : String
  generationFile : Option String := none
  deriving DecidableEq

inductive LoadError
  | io
  | unreadableAnchor
  | generationName
  | anchorVersion (version : Nat)
  | rolledBack (sequence known : Nat)
  | tooLarge
  | notText
  | anchorRequired
  -- Neither the target nor the generation file is what the anchor says.
  | mismatch
  | missingGeneration (name : String)
  | noGeneration
  -- The content isn't a state that can be taken up.
  | state (reason : String)
  deriving DecidableEq

-- The contents of files, and what's read from them.
class StateFiles (C : Type) (σ : outParam Type) where
  size            : C → Nat
  sha256          : C → String
  isText          : C → Bool
  anchorText      : SnapshotAnchor → C
  readAnchor      : C → Option SnapshotAnchor
  read_anchorText {anchor} : readAnchor (anchorText anchor) = some anchor
  sequence        : σ → Nat
  -- The state of a content that was chosen, with the anchor it was checked by. An archive summary
  -- that isn't complete is rebuilt from the archives beside the state.
  decode          : (String → Option C) → Option SnapshotAnchor → C → Except LoadError σ
  decode_of_none {archives anchor content state} :
    decode (fun _ => none) anchor content = .ok state → decode archives anchor content = .ok state
  decode_sequence {archives anchor content state} :
    decode archives (some anchor) content = .ok state → sequence state = anchor.sequence

structure DataDir (C : Type) where
  file     : String → Option C
  archives : String → Option C := fun _ => none

def anchorName (target : String) : String := target ++ ".anchor"

namespace DataDir

variable {C σ : Type} [StateFiles C σ] (d : DataDir C) (target : String)

open StateFiles

def badGenerationName (name : String) : Bool :=
  name = "" || name = "." || name = ".." || name.toList.any fun c => c = '/' || c = '\\' || c = ':'

def readSnapshotAnchor (content : C) : Except LoadError SnapshotAnchor := do
  let anchor ← ofOption (readAnchor content) .unreadableAnchor
  ensure (!anchor.generationFile.any badGenerationName) .generationName
  return anchor

-- The target if it's what the anchor says.
def validTarget (anchor : SnapshotAnchor) : Except LoadError (Option C) :=
  match d.file target with
  | none         => return none
  | some content => do
    ensure (size content ≤ maxSnapshotBytes) .tooLarge
    if sha256 content = anchor.checksum then
      ensure (isText content) .notText
      return some content
    else return none

-- The content that's loaded where there's an anchor. The generation file is also written to the
-- target then.
def committedContent (anchor : SnapshotAnchor) : Except LoadError C := do
  match ← d.validTarget target anchor with
  | some content => return content
  | none =>
    match anchor.generationFile with
    | none      => throw .noGeneration
    | some name =>
      match d.file name with
      | none         => throw (.missingGeneration name)
      | some content =>
        ensure (size content ≤ maxSnapshotBytes) .tooLarge
        ensure (sha256 content = anchor.checksum) .mismatch
        ensure (isText content) .notText
        return content

-- `known` is the sequence of the state the engine holds. It's 0 for an engine that's started.
def load (requireAnchor : Bool) (known : Nat) : Except LoadError σ :=
  match d.file (anchorName target) with
  | some text => do
    let anchor ← readSnapshotAnchor text
    ensure (anchor.version ≤ snapshotVersion) (.anchorVersion anchor.version)
    ensure (anchor.sequence = 0 || known = 0 || known ≤ anchor.sequence)
      (.rolledBack anchor.sequence known)
    let content ← d.committedContent target anchor
    decode d.archives (some anchor) content
  | none => do
    ensure (!requireAnchor) .anchorRequired
    let content ← ofOption (d.file target) .io
    ensure (size content ≤ maxSnapshotBytes) .tooLarge
    ensure (isText content) .notText
    decode d.archives none content

-- A file that's what an anchor says.
def Holds (anchor : SnapshotAnchor) (name : String) : Prop :=
  ∃ content, d.file name = some content ∧ sha256 content = anchor.checksum

variable {d target} {d' : DataDir C} {target' : String} {anchor : SnapshotAnchor} {content : C}
  {text : C} {state : σ} {requireAnchor requireAnchor' : Bool} {known : Nat}

theorem readSnapshotAnchor_eq_ok : readSnapshotAnchor text = .ok anchor ↔
    readAnchor text = some anchor ∧ !anchor.generationFile.any badGenerationName := by
  simp only [readSnapshotAnchor, bind_eq_ok', ofOption_eq_ok, ensure_eq_ok, exists_unit,
    pure_eq_ok]
  constructor
  case mp =>
    rintro ⟨a, ha, hn, rfl⟩
    exact ⟨ha, hn⟩
  case mpr => exact fun ⟨ha, hn⟩ => ⟨anchor, ha, hn, rfl⟩

-- What's loaded with an anchor only depends on it, on the target and on the generation file.
theorem committedContent_congr (ht : d.file target = d'.file target')
    (hg : ∀ name, anchor.generationFile = some name → d.file name = d'.file name) :
    d.committedContent target anchor = d'.committedContent target' anchor := by
  have hv : d.validTarget target anchor = d'.validTarget target' anchor := by
    rw [validTarget, validTarget, ht]
  rw [committedContent, committedContent, hv]
  cases hn : anchor.generationFile
  case none => rfl
  case some name => simp only [hg name hn]

theorem load_congr (ha : d.file (anchorName target) = some text)
    (ha' : d'.file (anchorName target') = some text) (ht : d.file target = d'.file target')
    (hg : ∀ anchor name, readSnapshotAnchor text = .ok anchor →
      anchor.generationFile = some name → d.file name = d'.file name)
    (hn : d.archives = fun _ => none) (h : d.load target requireAnchor known = .ok state) :
    d'.load target' requireAnchor' known = .ok state := by
  simp only [load, ha, bind_eq_ok', ensure_eq_ok, exists_unit, hn] at h
  simp only [load, ha', bind_eq_ok', ensure_eq_ok, exists_unit]
  obtain ⟨anchor, hr, hv, hs, content, hc, hd⟩ := h
  refine ⟨anchor, hr, hv, hs, content, ?_, decode_of_none hd⟩
  rw [← hc]
  exact (committedContent_congr ht fun name => hg anchor name hr).symm

end DataDir

-- Files that are read back as they were written.
inductive Sample
  | anchor (anchor : SnapshotAnchor)
  | state (sequence : Nat) (text : String)
  | json (json : Json)
  | plain (text : String)
  deriving DecidableEq

namespace Sample

def sha256 : Sample → String
  | .state _ text => text
  | _             => ""

instance : StateFiles Sample (Nat × String) where
  size c          := c.sha256.length
  sha256          := sha256
  isText _        := true
  anchorText      := .anchor
  readAnchor
    | .anchor a => some a
    | _         => none
  read_anchorText := rfl
  sequence        := Prod.fst
  decode _ anchor
    | .state n text =>
      if anchor.all (·.sequence = n) then .ok (n, text) else .error (.state "another sequence")
    | _ => .error (.state "not a state")
  decode_of_none  := id
  decode_sequence {_ anchor content state} h := by
    cases content
    case state n text =>
      by_cases hn : anchor.sequence = n
      case pos =>
        simp only [Option.all_some, hn, decide_true, if_true, Except.ok.injEq] at h
        rw [← h, hn]
      case neg => simp [hn] at h
    all_goals cases h

end Sample

end Billing
