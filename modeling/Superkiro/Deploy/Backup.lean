import Superkiro.Billing.Storage
import Superkiro.Deploy.Restore

-- A committed generation is captured from the files of a gateway that goes on running.
namespace Deploy

open Billing (Commit Event Sample SnapshotAnchor StateFiles Storage anchorName generationName
  maxSnapshotBytes satAddU64 u64Max)

def maxAnchorBytes : Nat := 4096

-- What the manifest of a backup says.
structure Manifest where
  identifier     : String
  createdAt      : String
  snapshotFile   : String
  snapshotSha256 : String
  anchorSha256   : String

def Manifest.json (m : Manifest) : Json := .obj [
  ("version", .num 1), ("generation_id", .str m.identifier), ("created_at", .str m.createdAt),
  ("snapshot_file", .str m.snapshotFile), ("snapshot_sha256", .str m.snapshotSha256),
  ("anchor_file", .str (m.snapshotFile ++ ".anchor")), ("anchor_sha256", .str m.anchorSha256),
  ("status", .str "completed")]

def anchorJson (a : SnapshotAnchor) : Json := .obj (
  [("version", .num a.version), ("sequence", .num a.sequence), ("checksum", .str a.checksum)] ++
  (a.generationFile.map fun name => ("generation_file", Json.str name)).toList)

-- The files as the backup reads and writes them.
class BackupFiles (C : Type) (σ : outParam Type) extends StateFiles C σ where
  -- `json.loads`
  json              : C → Option Json
  -- A number that isn't written as an integer, but equals one.
  isInteger         : String → Int → Bool
  manifestText      : Manifest → C
  encode            : String → C
  json_anchorText   : json (anchorText anchor) = some (anchorJson anchor)
  json_manifestText : json (manifestText manifest) = some manifest.json
  -- What the engine reads as an anchor is read by the backup too.
  json_of_readAnchor {text anchor} : readAnchor text = some anchor → ∃ j, json text = some j ∧
    j.get? "sequence" = some (.num anchor.sequence) ∧
    j.get? "checksum" = some (.str anchor.checksum) ∧
    (j.get? "generation_file").bind Json.asStr? = anchor.generationFile

section

variable {C σ : Type} [BackupFiles C σ] [DecidableEq C]

open BackupFiles (json isInteger)
open Billing.StateFiles (size sha256 anchorText)

inductive ReadError
  | notFound
  | tooLarge

def readRegular (file : String → Option C) (name : String) (limit : Nat) : Except ReadError C :=
  match file name with
  | none         => .error .notFound
  | some content => if size content ≤ limit then .ok content else .error .tooLarge

-- `value == n`, where a truth value is a number too
def equals (C : Type) {σ : Type} [BackupFiles C σ] (n : Int) : Json → Bool
  | .num m     => m = n
  | .real text => isInteger C text n
  | .bool b    => (if b then 1 else 0) = n
  | _          => false

def validSequence : Json → Option Nat
  | .num n => if 0 < n ∧ n < 2 ^ 64 then some n.toNat else none
  | _      => none

def isChecksum (s : String) : Bool :=
  s.length = 64 && s.toList.all fun c => c.isDigit || ('a' ≤ c && c ≤ 'f')

def validChecksum : Json → Option String
  | .str s => if isChecksum s then some s else none
  | _      => none

-- What an anchor says. Its generation is named after its sequence.
structure Found where
  sequence : Nat
  checksum : String
  deriving DecidableEq

def foundAnchor (anchorBytes : C) : Option Found := do
  let anchor ← json anchorBytes
  let sequence ← (anchor.get? "sequence").bind validSequence
  guard ((anchor.get? "version").any (equals C 2))
  guard ((anchor.get? "generation_file").bind Json.asStr? = some (generationName stageName sequence))
  let checksum ← (anchor.get? "checksum").bind validChecksum
  return ⟨sequence, checksum⟩

def Found.matches (found : Found) (payload : C) : Bool :=
  sha256 payload = found.checksum && (json payload).any fun snapshot =>
    (snapshot.get? "sequence").bind validSequence = some found.sequence &&
    (snapshot.get? "version").any (equals C 2)

-- The state that the gateway said it has written.
structure Synced where
  sequence : Nat
  checksum : String

def Synced.admits (synced : Synced) (found : Found) : Bool :=
  !(found.sequence < synced.sequence ||
    (found.sequence = synced.sequence && found.checksum ≠ synced.checksum))

-- How far the capture has got. The gateway may change its files between any two reads.
inductive Capture (C : Type)
  | readAnchor (left : Nat)
  | readPayload (left : Nat) (anchorBytes : C) (found : Found)
  | readAgain (left : Nat) (anchorBytes : C) (found : Found) (payload : C)
  | captured (payload anchorBytes : C) (generation : String)
  -- No attempt is left.
  | unstable
  | failed
  deriving DecidableEq

namespace Capture

def attempts : Nat := 5

def retry : Nat → Capture C
  | 0        => .unstable
  | left + 1 => .readAnchor left

-- One read of a file, and what's done up to the next one.
def read (synced : Synced) (file : String → Option C) : Capture C → Capture C
  | .readAnchor left =>
    match readRegular file (anchorName stageName) maxAnchorBytes with
    | .error .notFound => retry left
    | .error .tooLarge => .failed
    | .ok anchorBytes  =>
      match foundAnchor anchorBytes with
      | none       => .failed
      | some found => .readPayload left anchorBytes found
  | .readPayload left anchorBytes found =>
    match readRegular file (generationName stageName found.sequence) maxSnapshotBytes with
    | .error .notFound => retry left
    | .error .tooLarge => .failed
    | .ok payload      => .readAgain left anchorBytes found payload
  | .readAgain left anchorBytes found payload =>
    match readRegular file (anchorName stageName) maxAnchorBytes with
    | .error .notFound => retry left
    | .error .tooLarge => .failed
    | .ok again        =>
      if again ≠ anchorBytes then retry left
      else if found.matches payload && synced.admits found then
        .captured payload anchorBytes (generationName stageName found.sequence)
      else .failed
  | capture => capture

end Capture

-- The gateway and a backup that's taken meanwhile.
structure Backup (C : Type) where
  storage : Storage C
  capture : Capture C

inductive Action (C : Type)
  | engine (event : Event C)
  | read

def Backup.step? (synced : Synced) (requireAnchor : Bool) (b : Backup C) :
    Action C → Option (Backup C)
  | .engine event =>
    (b.storage.step? stageName requireAnchor event).map fun storage => ⟨storage, b.capture⟩
  | .read         => some ⟨b.storage, b.capture.read synced b.storage.file⟩

def Backup.Step (synced : Synced) (requireAnchor : Bool) (b : Backup C) (action : Action C)
    (b' : Backup C) : Prop :=
  b.step? synced requireAnchor action = some b'

-- The actions commit nothing.
def quiet (actions : List (Action C)) : Prop :=
  ∀ action ∈ actions, action ≠ .engine (.anchor true)

def reads : List (Action C) → Nat
  | []                  => 0
  | .read :: actions    => reads actions + 1
  | .engine _ :: actions => reads actions

-- A commit of a state with its sequence and version, as the engine writes it.
structure Recorded (c : Commit C) : Prop where
  anchor   : size (anchorText (c.anchor stageName) : C) ≤ maxAnchorBytes
  checksum : isChecksum (sha256 c.content)
  snapshot : ∃ snapshot, json c.content = some snapshot ∧
    (snapshot.get? "sequence").bind validSequence = some c.sequence ∧
    (snapshot.get? "version").any (equals C 2)

def Synced.of (c : Commit C) : Synced := ⟨c.sequence, sha256 c.content⟩

def found (c : Commit C) : Found := ⟨c.sequence, sha256 c.content⟩

variable {synced : Synced} {requireAnchor : Bool} {b b' : Backup C} {action : Action C}
  {actions : List (Action C)} {s s' : Storage C} {c c₀ : Commit C} {text payload : C} {left k : Nat}
  {j : Json} {n : Nat} {file : String → Option C} {events : List (Event C)} {name : String}
  {limit : Nat} {event : Event C}

theorem validSequence_eq (h : validSequence j = some n) : j = .num n ∧ 0 < n ∧ n < 2 ^ 64 := by
  cases j
  case num m =>
    rw [validSequence] at h
    split at h
    case isTrue hm =>
      cases h
      refine ⟨congrArg _ (Int.toNat_of_nonneg hm.left.le).symm, ?_⟩
      omega
    case isFalse => cases h
  all_goals cases h

theorem validSequence_num (hp : 0 < n) (hn : n < 2 ^ 64) : validSequence (.num n) = some n := by
  rw [validSequence, if_pos (by omega), Int.toNat_natCast]

omit [DecidableEq C] in
theorem Recorded.bounds (h : Recorded c) : 0 < c.sequence ∧ c.sequence < 2 ^ 64 := by
  obtain ⟨_, _, hs, _⟩ := h.snapshot
  obtain ⟨_, _, hj⟩ := Option.bind_eq_some_iff.mp hs
  exact (validSequence_eq hj).right

omit [DecidableEq C] in
theorem Recorded.foundAnchor (h : Recorded c) :
    foundAnchor (anchorText (c.anchor stageName) : C) = some (found c) := by
  have hs := validSequence_num h.bounds.left h.bounds.right
  simp [Deploy.foundAnchor, BackupFiles.json_anchorText, anchorJson, Commit.anchor, Json.get?, hs,
    Billing.snapshotVersion, equals, Json.asStr?, validChecksum, h.checksum, found]

omit [DecidableEq C] in
theorem Recorded.matches (h : Recorded c) : (found c).matches c.content := by
  obtain ⟨snapshot, hj, hs, hv⟩ := h.snapshot
  simp [Found.matches, found, hj, hs, hv]

omit [DecidableEq C] in
theorem readRegular_eq (hf : file name = some text) (hl : size text ≤ limit) :
    readRegular file name limit = .ok text := by
  rw [readRegular, hf]
  exact if_pos hl

-- What was read so far is of a commit that isn't before the one that was synchronized.
def Capture.Faithful (c₀ : Commit C) (s : Storage C) : Capture C → Prop
  | .readAnchor _ | .unstable => True
  | .readPayload _ text f =>
    ∃ c ∈ s.committed, (c = c₀ ∨ c₀.sequence < c.sequence) ∧
      text = anchorText (c.anchor stageName) ∧ f = found c
  | .readAgain _ text f payload =>
    ∃ c ∈ s.committed, (c = c₀ ∨ c₀.sequence < c.sequence) ∧
      text = anchorText (c.anchor stageName) ∧ f = found c ∧ payload = c.content
  | .captured payload text name =>
    ∃ c ∈ s.committed, (c = c₀ ∨ c₀.sequence < c.sequence) ∧
      text = anchorText (c.anchor stageName) ∧ payload = c.content ∧
      name = generationName stageName c.sequence
  | .failed => False

-- How far an attempt gets that reads one commit.
def Capture.stage (left : Nat) (c : Commit C) : Nat → Capture C
  | 0 => .readAnchor left
  | 1 => .readPayload left (anchorText (c.anchor stageName)) (found c)
  | 2 => .readAgain left (anchorText (c.anchor stageName)) (found c) c.content
  | _ => .captured c.content (anchorText (c.anchor stageName)) (generationName stageName c.sequence)

structure Backup.Sound (c₀ : Commit C) (b : Backup C) : Prop where
  storage : b.storage.Sound stageName
  kept    : b.storage.Kept stageName
  synced  : c₀ ∈ b.storage.committed
  capture : b.capture.Faithful c₀ b.storage

omit [DecidableEq C] in
theorem faithful_retry : (Capture.retry left : Capture C).Faithful c₀ s := by
  cases left <;> trivial

omit [DecidableEq C] in
theorem Capture.Faithful.mono {capture : Capture C} (h : capture.Faithful c₀ s)
    (hs : s.committed ⊆ s'.committed) : capture.Faithful c₀ s' := by
  cases capture
  case readAnchor | unstable => trivial
  case failed => exact h
  all_goals exact h.imp fun c hc => ⟨hs hc.left, hc.right⟩

omit [DecidableEq C] in
theorem admits_of (h : c = c₀ ∨ c₀.sequence < c.sequence) :
    (Synced.of c₀).admits (found c) := by
  rcases h with rfl | h
  · simp [Synced.admits, Synced.of, found]
  · simp [Synced.admits, Synced.of, found, h.not_gt, h.ne']

namespace Backup

omit [DecidableEq C] in
theorem readAnchor (h : b.Sound c₀) (hr : ∀ c ∈ b.storage.committed, Recorded c) :
    ∃ c ∈ b.storage.committed.head?, (c = c₀ ∨ c₀.sequence < c.sequence) ∧
      readRegular b.storage.file (anchorName stageName) maxAnchorBytes =
        .ok (anchorText (c.anchor stageName)) := by
  obtain ⟨c, hc, hle, he⟩ := h.storage.le_head h.synced
  refine ⟨c, hc, ?_, readRegular_eq (h.storage.anchor c hc) (hr c ?_).anchor⟩
  · exact (eq_or_lt_of_le hle).imp (fun h => (he h).symm) id
  · exact List.mem_of_mem_head? hc

theorem Sound.read (h : b.Sound c₀) (hr : ∀ c ∈ b.storage.committed, Recorded c) :
    (b.capture.read (.of c₀) b.storage.file).Faithful c₀ b.storage := by
  have hcapture := h.capture
  obtain ⟨c', hc', hle', hread⟩ := readAnchor h hr
  have hm' := List.mem_of_mem_head? hc'
  cases hb : b.capture
  case readAnchor left =>
    simp only [Capture.read, hread, (hr c' hm').foundAnchor]
    exact ⟨c', hm', hle', rfl, rfl⟩
  case readPayload left text f =>
    rw [hb] at hcapture
    obtain ⟨c, hm, hle, rfl, rfl⟩ := hcapture
    rw [Capture.read]
    rcases h.kept c hm with hf | hf
    · have hfits := h.storage.fits c hm
      simp only [Storage.fits, Bool.and_eq_true, decide_eq_true_eq] at hfits
      simp only [found, readRegular_eq hf hfits.left]
      exact ⟨c, hm, hle, rfl, rfl, rfl⟩
    · simp only [found, readRegular, hf]
      exact faithful_retry
  case readAgain left text f payload =>
    rw [hb] at hcapture
    obtain ⟨c, hm, hle, rfl, rfl, rfl⟩ := hcapture
    simp only [Capture.read, hread, (hr c hm).matches, admits_of hle, Bool.and_true, if_true]
    split
    case isTrue => exact faithful_retry
    case isFalse => exact ⟨c, hm, hle, rfl, rfl, rfl⟩
  case captured =>
    rw [hb] at hcapture
    exact hcapture
  case unstable => trivial
  case failed =>
    rw [hb] at hcapture
    exact hcapture

theorem step_engine (hs : b.Step synced requireAnchor (.engine event) b') :
    b.storage.Step stageName requireAnchor event b'.storage ∧ b'.capture = b.capture := by
  obtain ⟨storage, hstep, rfl⟩ := Option.map_eq_some_iff.mp hs
  exact ⟨hstep, rfl⟩

theorem step_read (hs : b.Step synced requireAnchor .read b') :
    b'.storage = b.storage ∧ b'.capture = b.capture.read synced b.storage.file := by
  cases hs
  exact ⟨rfl, rfl⟩

theorem Step.committed (hs : b.Step synced requireAnchor action b') :
    b.storage.committed <:+ b'.storage.committed ∧
      (action ≠ .engine (.anchor true) → b'.storage.committed = b.storage.committed) := by
  cases action
  case engine event =>
    have hs := (step_engine hs).left
    refine ⟨hs.later.committed, fun hne => ?_⟩
    rcases hs.committed with he | ⟨rfl, _⟩
    · exact he
    · exact absurd rfl hne
  case read =>
    have hs := (step_read hs).left
    exact ⟨hs ▸ List.suffix_rfl, fun _ => hs ▸ rfl⟩

theorem committed_of_run (r : Run (Step synced requireAnchor) b actions b') :
    b.storage.committed <:+ b'.storage.committed := by
  induction r
  case nil => exact List.suffix_rfl
  case cons hs _ hi => exact hs.committed.left.trans hi

theorem committed_of_quiet (r : Run (Step synced requireAnchor) b actions b')
    (hq : quiet actions) : b'.storage.committed = b.storage.committed := by
  induction r
  case nil => rfl
  case cons hs _ hi =>
    rw [quiet, List.forall_mem_cons] at hq
    exact (hi hq.right).trans (hs.committed.right hq.left)

theorem plain_stageName : Storage.Plain stageName := by simp [Storage.Plain, stageName]

theorem Sound.step (h : b.Sound c₀) (hr : ∀ c ∈ b'.storage.committed, Recorded c)
    (hd : b'.storage.Distinct) (hn : b.storage.last < u64Max)
    (hs : b.Step (.of c₀) requireAnchor action b') :
    b'.Sound c₀ ∧ b'.storage.last ≤ b.storage.last + 1 := by
  have hsub := hs.committed.left.subset
  cases action
  case engine event =>
    have hs := step_engine hs
    have hi := hs.left.later.distinct hd
    obtain ⟨hsound, hl⟩ := h.storage.step plain_stageName hi hn hs.left
    refine ⟨⟨hsound, h.storage.kept_step hsound h.kept hs.left, hsub h.synced, ?_⟩, hl⟩
    rw [hs.right]
    exact h.capture.mono hsub
  case read =>
    obtain ⟨hstorage, hcapture⟩ := step_read hs
    rw [hstorage] at hr
    have hf := h.read hr
    rw [← hcapture, ← hstorage] at hf
    refine ⟨⟨hstorage ▸ h.storage, hstorage ▸ h.kept, hstorage ▸ h.synced, hf⟩, ?_⟩
    rw [hstorage]
    exact Nat.le_succ _

theorem Sound.run (h : b.Sound c₀) (hr : ∀ c ∈ b'.storage.committed, Recorded c)
    (hd : b'.storage.Distinct) (hn : b.storage.last + actions.length ≤ u64Max)
    (r : Run (Step (.of c₀) requireAnchor) b actions b') :
    b'.Sound c₀ ∧ b'.storage.last ≤ b.storage.last + actions.length := by
  induction r
  case nil => exact ⟨h, le_refl _⟩
  case cons hs r hi =>
    rw [List.length_cons] at hn
    have hc := committed_of_run r
    have hd₁ : Storage.Distinct _ := fun c hm c' hm' => hd c (hc.subset hm) c' (hc.subset hm')
    obtain ⟨h, hl⟩ := h.step (fun c hm => hr c (hc.subset hm)) hd₁ (by omega) hs
    obtain ⟨h, hl'⟩ := hi h hr hd (by omega)
    exact ⟨h, by rw [List.length_cons]; omega⟩

theorem Sound.read_stage (h : b.Sound c₀) (hr : ∀ c ∈ b.storage.committed, Recorded c)
    (hc : c ∈ b.storage.committed.head?) :
    (Capture.stage left c k).read (.of c₀) b.storage.file = Capture.stage left c (k + 1) := by
  obtain ⟨c', hc', hle, hread⟩ := readAnchor h hr
  rw [Option.mem_unique hc' hc] at hle hread
  have hm := List.mem_of_mem_head? hc
  have hfits := h.storage.fits c hm
  simp only [Storage.fits, Bool.and_eq_true, decide_eq_true_eq] at hfits
  obtain _ | _ | _ | k := k
  · simp only [Capture.stage, Capture.read, hread, (hr c hm).foundAnchor]
  · simp only [Capture.stage, Capture.read, found,
      readRegular_eq (h.storage.current c hc) hfits.left]
  · simp only [Capture.stage, Capture.read, hread, ne_eq, not_true, if_false, (hr c hm).matches,
      admits_of hle, Bool.and_true, if_true]
    rfl
  · rfl

-- While nothing is committed, each read takes an attempt on.
theorem Sound.quiet_run (h : b.Sound c₀) (hr : ∀ c ∈ b'.storage.committed, Recorded c)
    (hd : b'.storage.Distinct) (hn : b.storage.last + actions.length ≤ u64Max)
    (hc : c ∈ b.storage.committed.head?) (hb : b.capture = .stage left c k) (hq : quiet actions)
    (r : Run (Step (.of c₀) requireAnchor) b actions b') :
    b'.capture = .stage left c (k + reads actions) := by
  induction r generalizing k
  case nil => exact hb
  case cons _ action _ actions _ hs r hi =>
    rw [List.length_cons] at hn
    rw [quiet, List.forall_mem_cons] at hq
    have hsub := committed_of_run r
    have hr₁ := fun c hm => hr c (hsub.subset hm)
    have hd₁ : Storage.Distinct _ := fun c hm c' hm' =>
      hd c (hsub.subset hm) c' (hsub.subset hm')
    obtain ⟨h', hl⟩ := h.step hr₁ hd₁ (by omega) hs
    have he := hs.committed.right hq.left
    cases action
    case engine =>
      exact hi h' hr hd (by omega) (he ▸ hc) ((step_engine hs).right.trans hb) hq.right
    case read =>
      rw [reads, Nat.add_comm _ 1, ← Nat.add_assoc]
      refine hi h' hr hd (by omega) (he ▸ hc) ?_ hq.right
      rw [(step_read hs).right, hb, h.read_stage (he ▸ hr₁) hc]

-- Every backup starts from what a gateway has written.
theorem Sound.of_runs {archives : String → Option C}
    (r₀ : Run (Storage.Step stageName requireAnchor) (Storage.empty archives) events s)
    (hc₀ : c₀ ∈ s.committed)
    (r : Run (Step (.of c₀) requireAnchor) ⟨s, .retry Capture.attempts⟩ actions b)
    (hn : events.length + actions.length ≤ u64Max) (hd : b.storage.Distinct)
    (hr : ∀ c ∈ b.storage.committed, Recorded c) :
    b.Sound c₀ ∧ b.storage.last ≤ events.length + actions.length := by
  have hsub := (committed_of_run r).subset
  have hd₀ : s.Distinct := fun c hm c' hm' => hd c (hsub hm) c' (hsub hm')
  have hlast : (Storage.empty archives).last = 0 := rfl
  obtain ⟨hs, hl⟩ := Storage.Sound.empty.run plain_stageName hd₀ r₀ (by omega)
  have hk := Storage.Sound.empty.kept_run plain_stageName hd₀ nofun r₀ (by omega)
  have h : Sound c₀ ⟨s, .retry Capture.attempts⟩ := ⟨hs, hk, hc₀, trivial⟩
  obtain ⟨h, hl'⟩ := h.run hr hd (by dsimp only; omega) r
  dsimp only at hl'
  exact ⟨h, by omega⟩

end Backup

end

namespace Sample

def json : Sample → Option Json
  | .anchor a  => some (anchorJson a)
  | .state n _ => some (.obj [("version", .num 2), ("sequence", .num n)])
  | .json j    => some j
  | .plain _   => none

instance : BackupFiles Sample (Nat × String) where
  json              := json
  isInteger text n  := text = toString n ++ ".0"
  manifestText m    := .json m.json
  encode            := .plain
  json_anchorText   := rfl
  json_manifestText := rfl
  json_of_readAnchor {text anchor} h := by
    cases text
    case anchor a =>
      cases h
      refine ⟨_, rfl, rfl, rfl, ?_⟩
      cases hg : anchor.generationFile <;> simp [anchorJson, hg, Json.get?, Json.asStr?]
    all_goals cases h

def digest (c : Char) : String := String.ofList (List.replicate 64 c)

-- The first commit, which is synchronized.
def first : Commit Sample := ⟨1, .state 1 (digest '1')⟩

def firstEvents : List (Event Sample) :=
  [.start true, .begin (.state 1 (digest '1')), .generation true, .anchor true, .mirror true,
    .finish]

-- Another one is committed during an attempt.
def second : Commit Sample := ⟨2, .state 2 (digest '2')⟩

def busyActions : List (Action Sample) :=
  [.read, .engine (.begin (.state 2 (digest '2'))), .engine (.generation true),
    .engine (.anchor true), .read, .read]

def quietActions : List (Action Sample) :=
  [.read, .engine (.mirror true), .read, .engine .crash, .read]

theorem recorded_first : Recorded first :=
  ⟨by decide +kernel, by decide +kernel, _, rfl, by decide +kernel, by decide +kernel⟩

theorem recorded_second : Recorded second :=
  ⟨by decide +kernel, by decide +kernel, _, rfl, by decide +kernel, by decide +kernel⟩

end Sample

end Deploy
