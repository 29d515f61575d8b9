import Superkiro.Lib.Faulty
import Superkiro.Patch.Bundle

-- Kiro's bundle is patched in place, with a backup beside it that it's put back from.
namespace Patch

open Patch.Bundle (BundleHost PatchRecipe renderPatchFor updatedPatch)

open Faulty

-- What's saved about a patch.
structure SavedState extends Bundle.PatchState where
  patchedHash         : String
  previousPatchedHash : Option String

-- A bundle with the files of its patch.
structure Extension where
  bundle : Option Bytes
  backup : Option Bytes
  state  : Option SavedState

inductive PatcherError
  -- Kiro runs, or may.
  | kiroRunning
  | fileNotFound
  | extensionChanged
  | invalidJavaScript
  | io
  | refused (error : Bundle.PatchError)
  | panicked

inductive ReadError
  | notFound
  | failed

inductive PatchStatus
  | notFound
  | official
  | patched
  -- The bundle was replaced since it was patched.
  | upgradeDetected
  deriving DecidableEq

-- A patch that Kiro's runtime has read, by the hashes of the bundle it's of and of what's written.
structure PreparedPatch where
  source  : String
  patched : String

-- Programs that patch a bundle, or put it back.
abbrev Patching (α : Type) : Type := Prog Extension PatcherError α

def PatcherError.ofStop : Bundle.Stop → PatcherError
  | .refused e => .refused e
  | .panicked  => .panicked

def markerPrefix : Bytes := Utf8.encode Bundle.markerStart

def marked (raw : Bytes) : Bool := markerPrefix.isPrefixOf raw

section

variable [BundleHost]

-- Whether bytes are those that were patched.
def SavedState.describes (st : SavedState) (raw : Bytes) : Bool :=
  raw.length = st.originalLen && BundleHost.contentHash raw = st.originalHash

-- Whether bytes are what a patch was to write, or had written before.
def SavedState.wrote (st : SavedState) (raw : Bytes) : Bool :=
  BundleHost.contentHash raw = st.patchedHash ||
    st.previousPatchedHash = some (BundleHost.contentHash raw)

-- What's saved before a bundle is patched, and before it's patched again.
def SavedState.first (raw patched : Bytes) (owner : Option (List Char)) : SavedState where
  originalLen         := raw.length
  originalHash        := BundleHost.contentHash raw
  owner               := owner
  patchedHash         := BundleHost.contentHash patched
  previousPatchedHash := none

def SavedState.again (st : SavedState) (raw patched : Bytes) : SavedState :=
  { st with
    previousPatchedHash := some (BundleHost.contentHash raw)
    patchedHash         := BundleHost.contentHash patched }

namespace ExtensionPatcher

-- Whether a file is there is always known. Reading it may fail.
def fetch (file : Extension → Option α) : Patching (Except ReadError α) := do
  match file (← Prog.get) with
  | none   => return .error .notFound
  | some a => return if ← Prog.may then .ok a else .error .failed

-- Fails with an error where a step does that changes nothing.
def permit (e : PatcherError) : Patching Unit := do
  unless ← Prog.may do Prog.throw e

def readBundle (e : PatcherError) : Patching Bytes := do
  match ← fetch (·.bundle) with
  | .ok raw  => return raw
  | .error _ => Prog.throw e

-- A bundle that can't be read counts as unmarked.
def markerPresent : Patching Bool := do
  match ← fetch (·.bundle) with
  | .ok raw  => return marked raw
  | .error _ => return false

def status : Patching PatchStatus := do
  if (← Prog.get).bundle.isNone then return .notFound
  if ← markerPresent then return .patched
  return if (← Prog.get).backup.isSome then .upgradeDetected else .official

def readState : Patching SavedState := do
  match ← fetch (·.state) with
  | .ok st   => return st
  | .error _ => Prog.throw .extensionChanged

def writeState (st : SavedState) : Patching Unit :=
  Prog.act (fun x => { x with state := some st }) .io

def atomicWrite (raw : Bytes) : Patching Unit :=
  Prog.act (fun x => { x with bundle := some raw }) .io

-- A backup isn't written at once.
def appendBackup : Bytes → Patching Unit
  | []       => permit .io
  | b :: raw => do
    Prog.act (fun x => { x with backup := x.backup.map (· ++ [b]) }) .io
    appendBackup raw

def removeBackup : Patching Unit := do
  if (← Prog.get).backup.isSome then Prog.act (fun x => { x with backup := none }) .io

-- The backup, if it's of the patched bundle.
def backupOf (st : SavedState) : Patching Bytes := do
  match ← fetch (·.backup) with
  | .ok raw  => if st.describes raw then return raw else Prog.throw .extensionChanged
  | .error _ => Prog.throw .extensionChanged

-- What the bundle was before it was patched.
def restoreMaterial : Patching (Option Bytes) := do
  let x ← Prog.get
  if x.state.isNone && x.backup.isNone then
    if (← status) = .patched then Prog.throw .extensionChanged else return none
  else
    let st ← readState
    let current ← readBundle .extensionChanged
    if st.describes current then return some current
    else
      let backup ← backupOf st
      if st.wrote current then return some backup else Prog.throw .extensionChanged

def verifyPatchedContent : Patching Unit := do
  let st ← readState
  let current ← readBundle .extensionChanged
  if st.wrote current then
    let _ ← restoreMaterial
  else Prog.throw .extensionChanged

-- What a patched bundle is to become.
def updated (content gateway : List Char) (recipe : PatchRecipe) (owner : Option (List Char)) :
    Patching (List Char) := do
  let st ← fetch (·.state)
  let backup ← fetch (·.backup)
  let installed : Bundle.Installed := {
    state        := st.toOption.map (·.toPatchState)
    backup       := backup.toOption
    currentOwner := owner
    gateway      := gateway
    recipe       := recipe }
  Prog.lift <| (updatedPatch installed content).mapError .ofStop

-- Kiro's runtime reads what's to be written, unless it did before.
def check (raw patched : Bytes) (prepared : Option PreparedPatch) : Patching Unit :=
  if prepared.any fun p =>
    p.source = BundleHost.contentHash raw && p.patched = BundleHost.contentHash patched then pure ()
  else permit .invalidJavaScript

-- A patched bundle is brought up to date.
def update (raw : Bytes) (content gateway : List Char) (recipe : PatchRecipe)
    (owner : Option (List Char)) (prepared : Option PreparedPatch) : Patching Unit := do
  verifyPatchedContent
  let repaired ← updated content gateway recipe owner
  if repaired ≠ content then
    check raw (Utf8.encode repaired) prepared
    let st ← readState
    writeState (st.again raw (Utf8.encode repaired))
    atomicWrite (Utf8.encode repaired)

-- Kiro's own bundle is patched, once there's a backup of it.
def install (raw : Bytes) (content gateway : List Char) (recipe : PatchRecipe)
    (owner : Option (List Char)) (prepared : Option PreparedPatch) : Patching Unit := do
  let patched ← Prog.lift <| (renderPatchFor content gateway recipe owner).mapError .ofStop
  check raw (Utf8.encode patched) prepared
  -- The state vouches for the backup, whatever becomes of that.
  writeState (.first raw (Utf8.encode patched) owner)
  Prog.act (fun x => { x with backup := some [] }) .io
  appendBackup raw
  atomicWrite (Utf8.encode patched)

def applyChecked (gateway : List Char) (recipe : PatchRecipe) (owner : Option (List Char))
    (prepared : Option PreparedPatch) : Patching Unit := do
  permit .kiroRunning
  if (← Prog.get).bundle.isNone then Prog.throw .fileNotFound
  let raw ← readBundle .io
  let content ← Prog.lift <| Except.ofOption (decoded? raw) .io
  if (← status) = .patched then update raw content gateway recipe owner prepared
  else if (← Prog.get).backup.isSome then Prog.throw .extensionChanged
  else install raw content gateway recipe owner prepared

-- What would be written, read by Kiro's runtime before Kiro is closed.
def prepare (gateway : List Char) (owner : Option (List Char)) : Patching PreparedPatch := do
  if (← Prog.get).bundle.isNone then Prog.throw .fileNotFound
  let raw ← readBundle .io
  let content ← Prog.lift <| Except.ofOption (decoded? raw) .io
  if marked raw then
    verifyPatchedContent
    let repaired ← updated content gateway .default owner
    if repaired ≠ content then permit .invalidJavaScript
    return ⟨BundleHost.contentHash raw, BundleHost.contentHash (Utf8.encode repaired)⟩
  else if (← Prog.get).backup.isSome then Prog.throw .extensionChanged
  else
    let patched ← Prog.lift <| (renderPatchFor content gateway .default owner).mapError .ofStop
    permit .invalidJavaScript
    return ⟨BundleHost.contentHash raw, BundleHost.contentHash (Utf8.encode patched)⟩

def apply (gateway : List Char) (owner : Option (List Char)) (prepared : Option PreparedPatch) :
    Patching Unit :=
  applyChecked gateway .default owner prepared

-- Whether there was something to restore.
def restoreValidated : Patching Bool := do
  match ← restoreMaterial with
  | none          => return false
  | some original =>
    atomicWrite original
    removeBackup
    if (← Prog.get).state.isNone then Prog.throw .io
    Prog.act (fun x => { x with state := none }) .io
    return true

def restore : Patching Bool := do
  permit .kiroRunning
  restoreValidated

def patchIsProvablyAbsent : Patching Bool := do
  match ← fetch (·.bundle) with
  | .ok raw  => return !marked raw
  | .error _ => return false

def discardObsoleteMaterial : Patching Unit := do
  removeBackup
  if (← Prog.get).state.isSome then Prog.act (fun x => { x with state := none }) .io

-- A read that fails proves nothing.
def restoreMaterialIsLost : Patching Bool := do
  if !(← markerPresent) then return false
  match ← fetch (·.state) with
  | .error .notFound => return true
  | .error .failed   => return false
  | .ok st           =>
    match ← fetch (·.bundle) with
    | .error _    => return false
    | .ok current =>
      if !st.wrote current then return true
      match ← fetch (·.backup) with
      | .error .notFound => return true
      | .error .failed   => return false
      | .ok backup       => return !st.describes backup

-- What's told of a rollback that can't be done.
inductive RollbackError
  | reinstallRequired
  | patch (error : PatcherError)

-- Settings and token are put back after this.
def rollback : Prog Extension RollbackError Bool := do
  match ← restore.attempt with
  | .ok restored             => return restored
  | .error .extensionChanged =>
    if ← patchIsProvablyAbsent.mapError .patch then
      discardObsoleteMaterial.mapError .patch
      return false
    else if ← restoreMaterialIsLost.mapError .patch then Prog.throw .reinstallRequired
    else Prog.throw (.patch .extensionChanged)
  | .error e                 => Prog.throw (.patch e)

end ExtensionPatcher

end

end Patch
